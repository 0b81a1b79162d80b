import Marshal.ByteCodec
import Marshal.Table

namespace Marshal

/-- A type as it is registered: a name to show, and the class its instances descend from. -/
structure TypeRef where
  name : String
  prototype : Option Class
deriving DecidableEq, Repr

/-- A step of a codec. Routines with one key are the same routine; a routine without a key is the
same as no other. -/
structure Routine where
  key : Option String
  run : Value → Action Value

def Routine.isSame (a b : Routine) : Bool := a.key.isSome && a.key == b.key

/-- How a type is taken apart into bytes or a tuple, and built again. -/
structure Codec where
  serialize : Routine
  deserialize : Routine

structure Entry where
  /-- Absent only in the entry for values of no registered type. -/
  type : Option TypeRef
  tag : String
  codec : Codec
  /-- Whether values go to the byte codec whole. -/
  pickled : Bool

namespace Entry

/-- The name of the type for messages about reading. -/
def typeName (e : Entry) : String := (e.type.map TypeRef.name).getD "unregistered type"

def prototype? (e : Entry) : Option Class := e.type.bind TypeRef.prototype

/-- Whether the entry does what one with this codec would do. Pickled entries all do the same. -/
def does (e : Entry) (codec : Codec) (pickled : Bool) : Bool :=
  if e.pickled || pickled then e.pickled == pickled
  else e.codec.serialize.isSame codec.serialize && e.codec.deserialize.isSame codec.deserialize

end Entry

namespace Pickle

open Marshal.Action

def notBytes (codecName : String) : Fault :=
  .typeError (codecName ++ " fallback expects bytes, got a tuple")

/-- Gives a decoded object that lost its class the class back. Its own entries are copied over; an
instance of the class stays as it is. -/
def restore (c : Class) (v : Value) : Action Value := do
  match ← objectOf? v with
  | none => return v
  | some o =>
    if o.body = .function || o.kind.any (·.isWithin c) then return v
    let restored ← o.entries.foldlM (fun (r : Object) (name, w) => assign r name w)
      { kind := some c }
    add restored

def bytesOf (codecName : String) (v : Value) : Action ByteArray := do
  let g ← get
  match g.bytes? v with
  | some bytes => return bytes
  | none =>
    if ((g.objectOf? v).bind (·.kind)).any (·.isWithin (.numbers .uint8)) then throw .misuse
    else throw (notBytes codecName)

def codec (bytes : ByteCodec) (type : Option TypeRef) : Codec where
  serialize := ⟨none, fun v => do newBytes (← bytes.encode v)⟩
  deserialize := ⟨none, fun data => do
    let v ← bytes.decode (← bytesOf bytes.name data)
    match type.bind TypeRef.prototype with
    | some c => restore c v
    | none => return v⟩

end Pickle

/-- The entry as a registry with the given fallback codec has it. Pickled entries use that codec. -/
def Entry.withFallback (e : Entry) (fallback : ByteCodec) : Entry :=
  if e.pickled then { e with codec := Pickle.codec fallback e.type } else e

theorem Entry.tag_withFallback (e : Entry) (fallback : ByteCodec) :
    (e.withFallback fallback).tag = e.tag := by
  unfold withFallback
  split <;> rfl

theorem Entry.prototype?_withFallback (e : Entry) (fallback : ByteCodec) :
    (e.withFallback fallback).prototype? = e.prototype? := by
  unfold withFallback
  split <;> rfl

theorem Entry.type_withFallback (e : Entry) (fallback : ByteCodec) :
    (e.withFallback fallback).type = e.type := by
  unfold withFallback
  split <;> rfl

end Marshal
