import Marshal.Bytes
import Marshal.Graph

namespace Marshal

/-- A number array: what kind its elements are, and their bytes, least significant first. -/
structure NumberArray where
  dtype : DType
  bytes : ByteArray
deriving DecidableEq

namespace NumberArray

def length (a : NumberArray) : Nat := a.bytes.size / a.dtype.width

def element (d : DType) (bytes : List UInt8) : Value :=
  let n := Bytes.littleEndian bytes
  match d with
  | .uint8 | .uint8clamped | .uint16 | .uint32 => .nat n
  | .int8 | .int16 | .int32 => .int (Bytes.signed d.width n)
  | .float32 => .number (Number.ofSingle (UInt32.ofNat n))
  | .float64 => .number (Number.ofBits (UInt64.ofNat n))
  | .int64 => .bigint (Bytes.signed 8 n)
  | .uint64 => .bigint (Int.ofNat n)

def get? (a : NumberArray) (i : Nat) : Option Value :=
  if i < a.length then
    some (element a.dtype (Bytes.slice a.bytes (i * a.dtype.width) a.dtype.width).toList)
  else none

def elements (a : NumberArray) : List Value := (List.range a.length).filterMap a.get?

def encode (a : NumberArray) : String × ByteArray := (a.dtype.name, a.bytes)

def unknownKind (shownName : String) : Fault := .typeError s!"Unknown dtype \"{shownName}\""

def partialElement (size : String) (d : DType) : Fault :=
  .rangeError s!"Buffer of {size} bytes is not a whole number of {d.name} elements"

/-- The array of a known element kind whose bytes are whole elements. -/
def decode (dtype : String) (bytes : ByteArray) : Except Fault NumberArray :=
  match DType.ofName? dtype with
  | none => .error (unknownKind dtype)
  | some d =>
    if bytes.size % d.width = 0 then .ok ⟨d, bytes⟩
    else .error (partialElement (toString bytes.size) d)

end NumberArray

end Marshal
