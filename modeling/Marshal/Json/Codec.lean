import Marshal.Json.Parser
import Marshal.MessagePack.Writer

namespace Marshal.Json

open Marshal.Action

/-- What an object shows in its place: a date its text, bytes from a codec a list of numbers, and an
instance what its class shows. -/
def shown (v : Value) (o : Object) : Action Value := do
  match o.fields.lookup "toJSON" with
  | some own =>
    match (← objectOf? own).map Object.body with
    | some .function => return .undefined
    | _ => return v
  | none =>
    match o.kind with
    | none => return v
    | some c =>
      if c.isWithin .date then
        match o.body with
        | .date (some ms) => return .string (Calendar.isoText ms)
        | .date none => return .null
        | _ => throw .misuse
      else if c.isWithin .bytes then
        match o.body with
        | .numbers .. =>
          let data ← newList (o.indexed.filterMap id)
          newRecord [("type", .string "Buffer"), ("data", data)]
        | _ => throw .misuse
      else
        match c.summary? with
        | some (.parts parts) => MessagePack.summarise v parts
        | _ => return v

/-- The document of a value; nothing for what has none. An object inside itself is refused. The fuel
bounds the nesting. -/
def ofValueWith : (fuel : Nat) → (within : List Ref) → Value → Action (Option Json)
  | 0, _, _ => throw .outOfRange
  | fuel + 1, within, v => do
    let v ← match v with
      | .object _ =>
        match ← objectOf? v with
        | some o => shown v o
        | none => pure v
      | v => pure v
    match v with
    | .null => return some null
    | .undefined | .symbol _ => return none
    | .bool b => return some (bool b)
    | .number x => return some (number x)
    | .string s => return some (string s)
    | .brokenText units => return some (brokenText units)
    | .bigint _ => throw .misuse
    | .object ref =>
      let some o ← objectOf? v | return none
      match o.body with
      | .function => return none
      | .boxed (.bigint _) => throw .misuse
      | .boxed (.number x) => return some (number x)
      | .boxed (.bool b) => return some (bool b)
      | .boxed (.string s) => return some (string s)
      | .list items =>
        if within.contains ref then throw .misuse
        let documents ← items.mapM fun item => do
          return (← ofValueWith fuel (ref :: within) (item.getD .undefined)).getD null
        return some (array documents)
      | _ =>
        if within.contains ref then throw .misuse
        let members ← o.entries.filterMapM fun (name, w) => do
          return (← ofValueWith fuel (ref :: within) w).map (name, ·)
        return some (object members)

def ofValue (v : Value) : Action (Option Json) := do ofValueWith (4 * (← get).size + 8) [] v

mutual

/-- Builds the value of a document. Of members with one name the last counts. -/
def toValue : Json → Action Value
  | null => return .null
  | bool b => return .bool b
  | number x => return .number x
  | string s => return .string s
  | brokenText units => return .brokenText units
  | array items => do newList (← toValues items)
  | object members => do newRecord (Fields.ofList (← toFields members))

def toValues : List Json → Action (List Value)
  | [] => return []
  | j :: rest => do return (← toValue j) :: (← toValues rest)

def toFields : List (String × Json) → Action (List (String × Value))
  | [] => return []
  | (name, j) :: rest => do return (name, ← toValue j) :: (← toFields rest)

end

/-- What has no document is written as null. -/
def encode (v : Value) : Action ByteArray := do return ((← ofValue v).getD null).text.toUTF8

def decode (bytes : ByteArray) : Action Value := do
  match parse? (Text.ofUtf8 bytes).toList with
  | some j => toValue j
  | none => throw .malformed

end Marshal.Json
