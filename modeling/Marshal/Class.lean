import Marshal.DType
import Marshal.Fault

namespace Marshal

/-- Where a part of a summary comes from. -/
inductive Source where
  | field (name : String)
  | text (s : String)
deriving DecidableEq, Repr

/-- What an instance shows of itself in place of its fields. -/
inductive Summary where
  | itself
  | parts (parts : List (String × Source))
deriving DecidableEq, Repr

/-- What an instance gives under a name that it has from its class. -/
inductive Getter where
  | value (v : Value)
  /-- What the instance has of its own under a name. -/
  | field (name : String)
  | itself
  /-- Something that only instances with the class's own storage have. -/
  | computed
  | fails (cause : Cause)
deriving DecidableEq, Repr

/-- What becomes of a value that is assigned to a name that an instance has from its class. -/
inductive Setter where
  /-- The instance gets a field of its own. -/
  | own
  /-- It goes to a field of another name. -/
  | field (name : String)
  | dropped
  | fails (fault : Fault)
deriving DecidableEq, Repr

/-- A name that the instances of a class have without a field of their own. -/
structure Member where
  name : String
  read : Getter := .computed
  write : Setter := .fails .misuse
deriving DecidableEq, Repr

/-- What a class adds to its parent. -/
structure Traits where
  name : String
  members : List Member := []
  summary : Option Summary := none
deriving DecidableEq, Repr

/-- A class of objects, told apart by its traits and its ancestry. -/
inductive Class where
  | root (traits : Traits)
  | sub (traits : Traits) (parent : Class)
deriving DecidableEq, Repr

namespace Class

def traits : Class → Traits
  | root t => t
  | sub t _ => t

def name (c : Class) : String := c.traits.name

/-- The class and its ancestors, nearest first. -/
def lineage : Class → List Class
  | root t => [root t]
  | sub t parent => sub t parent :: lineage parent

theorem mem_lineage_self (c : Class) : c ∈ c.lineage := by cases c <;> simp [lineage]

def isWithin (c ancestor : Class) : Bool := c.lineage.contains ancestor

def ownMember? (c : Class) (name : String) : Option Member :=
  c.traits.members.find? (·.name == name)

/-- The nearest class of the lineage that provides a name. -/
def provider? (c : Class) (name : String) : Option Class :=
  c.lineage.find? fun a => (a.ownMember? name).isSome

def member? (c : Class) (name : String) : Option Member := c.lineage.findSome? (·.ownMember? name)

def summary? (c : Class) : Option Summary := c.lineage.findSome? (·.traits.summary)

def object : Class := root { name := "Object" }

/-- A class directly below `object`. -/
def top (name : String) (members : List Member := []) : Class := sub ⟨name, members, none⟩ object

/-- Names under which only instances with the class's own storage have something. -/
def computed (names : List String) : List Member := names.map fun name => { name }

/-- A name under which all instances have the same value until one is assigned to it. -/
def shared (name : String) (v : Value) : Member := ⟨name, .value v, .own⟩

/-- A name under which all instances have the same value. -/
def fixed (name : String) (v : Value) : Member := { name, read := .value v }

def function : Class :=
  top "Function" (fixed "name" (.string "") :: fixed "length" (.number .zero) ::
    computed ["arguments", "caller"])
def array : Class := top "Array" [shared "length" (.number .zero)]
def map : Class := top "Map" (computed ["size"])
def set : Class := top "Set" (computed ["size"])
def date : Class := top "Date"
def pattern : Class := top "RegExp" (computed ["dotAll", "flags", "global", "hasIndices",
  "ignoreCase", "multiline", "source", "sticky", "unicode", "unicodeSets"])
def bigint : Class := top "BigInt"
def number : Class := top "Number"
def string : Class := top "String" [fixed "length" (.number .zero)]
def boolean : Class := top "Boolean"
def symbol : Class := top "Symbol" (computed ["description"])
def arrayBuffer : Class :=
  top "ArrayBuffer" (computed ["byteLength", "detached", "maxByteLength", "resizable"])
def dataView : Class := top "DataView" (computed ["buffer", "byteLength", "byteOffset"])

def error : Class :=
  top "Error" [shared "name" (.string "Error"), shared "message" (.string "")]
def errorKinds : List String :=
  ["EvalError", "RangeError", "ReferenceError", "SyntaxError", "TypeError", "URIError",
    "AggregateError"]
def errorOfKind (kind : String) : Class :=
  sub ⟨kind, [shared "name" (.string kind), shared "message" (.string "")], none⟩ error

/-- The name an error of this class goes by: that of its nearest ancestor with a name of its own. -/
def errorName (c : Class) : String :=
  let isNamed (a : Class) : Bool := a == error || errorKinds.any (a == errorOfKind ·)
  ((c.lineage.find? isNamed).map name).getD "Error"

def typedArray : Class :=
  top "TypedArray" (computed ["buffer", "byteLength", "byteOffset", "length"])

def typedArrayName : DType → String
  | .int8 => "Int8Array"
  | .uint8 => "Uint8Array"
  | .uint8clamped => "Uint8ClampedArray"
  | .int16 => "Int16Array"
  | .uint16 => "Uint16Array"
  | .int32 => "Int32Array"
  | .uint32 => "Uint32Array"
  | .float32 => "Float32Array"
  | .float64 => "Float64Array"
  | .int64 => "BigInt64Array"
  | .uint64 => "BigUint64Array"

def numbers (d : DType) : Class :=
  sub ⟨typedArrayName d, computed ["BYTES_PER_ELEMENT"], none⟩ typedArray

/-- Byte arrays that came from a codec. -/
def bytes : Class := sub ⟨"Buffer", computed ["offset", "parent"], none⟩ (numbers .uint8)

def column : Class := top "Column" (computed ["length"])
def table : Class := top "Table" (computed ["columnNames", "numRows"])

/-- The class of the one object that the reserved byte stands for. -/
def reserved : Class := top "C1Type"

/-- How messages name a value of this class. -/
def displayName (c : Class) : String :=
  if c == function || c.name.isEmpty then "Object" else c.name

end Class

end Marshal
