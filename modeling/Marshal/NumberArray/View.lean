import Marshal.NumberArray

namespace Marshal.NumberArray

/-- A number array as it lies in memory: a stretch of a buffer, which may hold more before it and
after it. -/
@[ext]
structure View where
  dtype : DType
  /-- The class for the element kind, or one below it. -/
  kind : Class
  buffer : ByteArray
  /-- Bytes before the first element. -/
  offset : Nat
  length : Nat
  ofKind : kind.isWithin (.numbers dtype) = true
  aligned : offset % dtype.width = 0
  fits : offset + length * dtype.width ≤ buffer.size
  /-- Sizes of buffers are numbers that are stored exactly. -/
  countable : buffer.size < 0x20000000000000

namespace View

def byteLength (v : View) : Nat := v.length * v.dtype.width

/-- The bytes of the elements, without what surrounds them. -/
def bytes (v : View) : ByteArray := Bytes.slice v.buffer v.offset v.byteLength

theorem size_bytes (v : View) : v.bytes.size = v.byteLength := by
  have fits : v.offset + v.byteLength ≤ v.buffer.size := v.fits
  rw [bytes, Bytes.slice, ByteArray.size_extract]
  omega

def contents (v : View) : NumberArray := ⟨v.dtype, v.bytes⟩

def object (v : View) : Object := { kind := some v.kind, body := .numbers v.dtype v.bytes }

/-- The names of the element kinds by class, in the order in which an array is asked for its
class. -/
def ladder : List (Class × String) :=
  [(.numbers .int8, "int8"), (.numbers .uint8clamped, "uint8clamped"), (.numbers .uint8, "uint8"),
    (.numbers .int16, "int16"), (.numbers .uint16, "uint16"), (.numbers .int32, "int32"),
    (.numbers .uint32, "uint32"), (.numbers .float32, "float32"), (.numbers .float64, "float64"),
    (.numbers .int64, "int64")]

/-- The name of the element kind of an array of the class. What no other class claims counts as the
last kind. -/
def nameOf (c : Class) : String :=
  ((ladder.find? fun row => c.isWithin row.1).map Prod.snd).getD "uint64"

/-- Bytes per element, by the name of the kind. -/
def widths : List (String × Nat) :=
  [("int8", 1), ("uint8", 1), ("uint8clamped", 1), ("int16", 2), ("uint16", 2), ("int32", 4),
    ("uint32", 4), ("float32", 4), ("float64", 8), ("int64", 8), ("uint64", 8)]

/-- The kinds of the arrays that are built, by the name of the kind. -/
def builders : List (String × DType) :=
  [("int8", .int8), ("uint8", .uint8), ("uint8clamped", .uint8clamped), ("int16", .int16),
    ("uint16", .uint16), ("int32", .int32), ("uint32", .uint32), ("float32", .float32),
    ("float64", .float64), ("int64", .int64), ("uint64", .uint64)]

def copy (v : View) : View where
  dtype := .uint8
  kind := .numbers .uint8
  buffer := v.bytes
  offset := 0
  length := v.byteLength
  ofKind := by decide
  aligned := rfl
  fits := by
    rw [size_bytes, Nat.zero_add]
    exact Nat.le_of_eq (Nat.mul_one _)
  countable := by
    have fits : v.offset + v.byteLength ≤ v.buffer.size := v.fits
    have countable := v.countable
    rw [size_bytes]
    omega

/-- An array of so many elements from the start of the buffer of a view. -/
def build (name : String) (memory : View) (length : Nat) : Except Fault View :=
  match builders.lookup name with
  | none => .error .misuse
  | some d =>
    if fits : 0 + length * d.width ≤ memory.buffer.size then
      .ok
        { dtype := d, kind := .numbers d, buffer := memory.buffer, offset := 0, length
          ofKind := by cases d <;> decide
          aligned := Nat.zero_mod _
          fits
          countable := memory.countable }
    else .error .outOfRange

/-- The name of the element kind, and the bytes in a byte array of their own. -/
def encode (v : View) : String × View := (nameOf v.kind, v.copy)

/-- The array of a known element kind over a copy of bytes that are whole elements. -/
def decode (name : String) (bytes : View) : Except Fault View :=
  match widths.lookup name with
  | none => .error (unknownKind name)
  | some width =>
    if bytes.byteLength % width ≠ 0 then
      .error (.rangeError
        s!"Buffer of {bytes.byteLength} bytes is not a whole number of {name} elements")
    else build name bytes.copy (bytes.byteLength / width)

end View

end Marshal.NumberArray
