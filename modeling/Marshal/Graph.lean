import Marshal.Bytes
import Marshal.Class
import Marshal.Text.Digit

namespace Marshal

/-- The whole number a key spells, if it is a list index in its usual form. -/
def indexOfKey? (key : String) : Option Nat :=
  let cs := key.toList
  if cs.isEmpty || !cs.all Char.isDigit then none
  else if cs.length > 1 && cs.head? == some '0' then none
  else
    let n := Text.natOfDigits cs
    if n < 0xffffffff then some n else none

/-- Named values: list indices ascending, then the other names in the order they came. -/
abbrev Fields := List (String × Value)

namespace Fields

def get? (fields : Fields) (key : String) : Option Value := fields.lookup key

def keys (fields : Fields) : List String := fields.map Prod.fst

/-- Whether a new key `a` goes before the present key `b`. -/
def precedes (a b : String) : Bool :=
  match indexOfKey? a, indexOfKey? b with
  | some m, some n => m < n
  | some _, none => true
  | none, _ => false

def place (key : String) (value : Value) : Fields → Fields
  | [] => [(key, value)]
  | (k, v) :: rest =>
    if precedes key k then (key, value) :: (k, v) :: rest else (k, v) :: place key value rest

/-- A known key keeps its position. -/
def set (fields : Fields) (key : String) (value : Value) : Fields :=
  if fields.any (·.1 == key) then
    fields.map fun (k, v) => if k == key then (k, value) else (k, v)
  else place key value fields

def ofList (pairs : List (String × Value)) : Fields :=
  pairs.foldl (fun fields (k, v) => set fields k v) []

end Fields

/-- What an object holds beside its fields. -/
inductive Body where
  | plain
  /-- A list; an absent item is a hole. -/
  | list (items : List (Option Value))
  | map (entries : List (Value × Value))
  | set (members : List Value)
  /-- Milliseconds since 1970; nothing for an invalid date. -/
  | date (time : Option Int)
  | pattern (source flags : String)
  | numbers (dtype : DType) (bytes : ByteArray)
  | buffer (bytes : ByteArray)
  | view (bytes : ByteArray)
  | error (message : Option String) (cause : Option Value)
  | boxed (value : Value)
  | function
deriving DecidableEq

structure Object where
  /-- Nothing for an object outside every class. -/
  kind : Option Class
  fields : Fields := []
  body : Body := .plain
deriving DecidableEq

/-- What reading a name gives, unless it is the name of an index: what the object has of its own, or
what its class provides. Nothing if there is no such name, so that one that reads as undefined can
be told from one that is not there. -/
def Object.read? (o : Object) (self : Value) (name : String) : Option (Except Fault Value) :=
  match o.fields.get? name with
  | some v => some (.ok v)
  | none =>
    (o.kind.bind (·.member? name)).map fun member =>
      match member.read with
      | .value v => .ok v
      | .field other => .ok ((o.fields.get? other).getD .undefined)
      | .itself => .ok self
      | .computed => .error .misuse
      | .fails cause => .error (.cause cause)

/-- Objects by reference. A graph only grows, but an object in it may be filled in later. -/
structure Graph where
  objects : Array Object

namespace Graph

def reservedRef : Ref := 0

/-- The reserved byte of MessagePack reads as this object. -/
def reservedObject : Object :=
  { kind := some Class.reserved, fields := [("name", .string "MessagePack 0xC1")] }

def initial : Graph := ⟨#[reservedObject]⟩

def get? (g : Graph) (ref : Ref) : Option Object := g.objects[ref]?

def size (g : Graph) : Nat := g.objects.size

def add (g : Graph) (o : Object) : Graph := ⟨g.objects.push o⟩

def put (g : Graph) (ref : Ref) (o : Object) : Graph := ⟨g.objects.setIfInBounds ref o⟩

theorem get?_add_size (g : Graph) (o : Object) : (g.add o).get? g.size = some o := by
  simp [get?, add, size]

theorem get?_add_of_lt (g : Graph) (o : Object) {ref : Ref} (h : ref < g.size) :
    (g.add o).get? ref = g.get? ref := by
  simp only [get?, add, size] at *
  rw [Array.getElem?_push_lt h, Array.getElem?_eq_getElem h]

theorem size_add (g : Graph) (o : Object) : (g.add o).size = g.size + 1 := by
  simp [add, size]

def objectOf? (g : Graph) : Value → Option Object
  | .object ref => g.get? ref
  | _ => none

/-- The class dispatch starts from: that of the object, or that of the scalar's wrapper. -/
def classOf? (g : Graph) : Value → Option Class
  | .null | .undefined => none
  | .bool _ => some Class.boolean
  | .number _ => some Class.number
  | .string _ | .brokenText _ => some Class.string
  | .bigint _ => some Class.bigint
  | .symbol _ => some Class.symbol
  | .object ref => (g.get? ref).bind (·.kind)

def bytes? (g : Graph) (v : Value) : Option ByteArray :=
  match (g.objectOf? v).map Object.body with
  | some (.numbers .uint8 bytes) => some bytes
  | _ => none

def items? (g : Graph) (v : Value) : Option (List (Option Value)) :=
  match (g.objectOf? v).map Object.body with
  | some (.list items) => some items
  | _ => none

def sortName (g : Graph) : Value → String
  | .null => "object"
  | .undefined => "undefined"
  | .bool _ => "boolean"
  | .number _ => "number"
  | .string _ | .brokenText _ => "string"
  | .bigint _ => "bigint"
  | .symbol _ => "symbol"
  | v@(.object _) =>
    match (g.objectOf? v).map Object.body with
    | some .function => "function"
    | _ => "object"

def typeName (g : Graph) : Value → String
  | .null => "null"
  | .object ref =>
    match (g.get? ref).bind (·.kind) with
    | some c => c.displayName
    | none => "Object"
  | v => g.sortName v

end Graph

end Marshal
