import Marshal.Describe
import Marshal.Pattern

namespace Marshal

/-- Entries of a map by key, in the order in which the keys came. -/
def setEntry (entries : List (Value × Value)) (key value : Value) : List (Value × Value) :=
  if entries.any (·.1.same key) then
    entries.map fun (k, v) => if k.same key then (k, value) else (k, v)
  else entries ++ [(key.asKey, value)]

def addMember (members : List Value) (v : Value) : List Value :=
  if members.any (·.same v) then members else members ++ [v.asKey]

def entriesOf (pairs : List (Value × Value)) : List (Value × Value) :=
  pairs.foldl (fun entries (k, v) => setEntry entries k v) []

def membersOf (values : List Value) : List Value := values.foldl addMember []

namespace Action

/-- The own names and values of a value; a text has its units under their indices. -/
def namedValues (v : Value) : Action (List (String × Value)) := do
  match v with
  | .null | .undefined => throw .misuse
  | .object _ => return ((← objectOf? v).map Object.entries).getD []
  | v => return (v.units?.getD []).zipIdx.map fun (u, i) => (toString i, Value.ofUnits [u])

/-- The values under the indices below a length, of which at most `limit` are allowed. -/
def indexedValues (limit : Nat) (v : Value) : Action (List Value) := do
  match ← property v "length" with
  | .number n =>
    let count := (n.truncate?.getD 0).toNat
    if limit < count then throw .outOfRange
    (List.range count).mapM fun i => property v (toString i)
  | _ => return []

/-- A list of the items of a value, or of its values under indices if it has no order of its own. -/
def listOf (v : Value) : Action Value := do
  match v with
  | .null | .undefined => throw .misuse
  | .object _ =>
    let some o ← objectOf? v | throw .misuse
    let hasOrder : Bool := match o.body with
      | .boxed w => w.characters?.isSome
      | _ => [Class.array, .map, .set, .typedArray].any fun c => o.kind.any (·.isWithin c)
    newList (← if hasOrder then iterate v else indexedValues 0x100000 v)
  | v => newList (v.characters?.getD [])

/-- A set of the items of a value; no value gives the empty set. -/
def setOf (v : Value) : Action Value := do
  if v.isNullish then newSet [] else newSet (membersOf (← iterate v))

/-- A pattern from its source and flags. Another pattern gives its source, and its flags unless
others are given; nothing given counts as empty. -/
def patternOf (source flags : Value) : Action Value := do
  let given := match (← objectOf? source).map Object.body with
    | some (.pattern s f) => some (s, f)
    | _ => none
  let sourceText ← match given, source with
    | some (s, _), _ => pure s
    | none, .undefined => pure ""
    | none, v => text v
  let flagText ← match given, flags with
    | some (_, f), .undefined => pure f
    | none, .undefined => pure ""
    | _, v => text v
  match Pattern.build? sourceText flagText with
  | some (s, f) => add { kind := some .pattern, body := .pattern s f }
  | none => throw .malformed

end Action

end Marshal
