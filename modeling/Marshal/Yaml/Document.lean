import Marshal.Assoc
import Marshal.Yaml.Parser

namespace Marshal.Yaml

/-- Why a text gives no value. -/
inductive ReadError where
  | malformed
  /-- An alias without an anchor before it, or anchors used too often. -/
  | alias
  /-- What is to be merged into a mapping is none. -/
  | merge
deriving DecidableEq, Repr

/-- An anchor met so far, with the value it stands for. -/
structure Anchored where
  name : String
  value : Yaml
  uses : Nat := 1
  /-- How many values one use stands for through further aliases. -/
  weight : Nat := 0

abbrev Resolver := StateT (Array Anchored) (Except ReadError)

/-- How many values aliases of one anchor may stand for. -/
def aliasLimit : Nat := 100

/-- Notes an anchor before its collection is read, inside which it stands for an empty one. -/
def declare (anchor : Option String) (empty : Yaml) : Resolver (Option Nat) := do
  match anchor with
  | none => return none
  | some name =>
    let anchors ← get
    set (anchors.push ⟨name, empty, 1, 0⟩)
    return some anchors.size

def settle (place : Option Nat) (value : Yaml) (weight : Nat) : Resolver Unit := do
  match place with
  | none => return
  | some i => modify fun anchors => anchors.modify i fun a => { a with value, weight }

/-- The value and the weight of an alias: the last anchor of its name counts. -/
def follow (name : String) : Resolver (Yaml × Nat) := do
  let anchors ← get
  match anchors.toList.zipIdx.reverse.find? fun (a, _) => a.name == name with
  | none => throw .alias
  | some (a, i) =>
    let uses := a.uses + 1
    if aliasLimit < uses * a.weight then throw .alias
    set (anchors.modify i fun a => { a with uses })
    return (a.value, uses * a.weight)

/-- The name under which a mapping keeps the value of a key. Collections as keys have names of their
own. -/
def keyName : Yaml → String
  | .null => ""
  | .list items => "[" ++ ((Yaml.list items).shown?.getD "") ++ "]"
  | .mapping _ => "\x7b\x7d"
  | v => v.shown?.getD ""

/-- Takes over the entries of another mapping whose names are free. -/
def mergeEntries (entries : Assoc String Yaml) : Yaml → Except ReadError (Assoc String Yaml)
  | .mapping more =>
    let add (entries : Assoc String Yaml) (entry : String × Yaml) : Assoc String Yaml :=
      if (entries.find? entry.1).isSome then entries else entries ++ [entry]
    .ok (more.foldl add entries)
  | _ => .error .merge

def isMergeKey (schema : Schema) : Node → Bool
  | .scalar _ (.text "<<") => schema == .wide
  | _ => false

mutual

/-- The value of a node and how many values it stands for. -/
def Node.value (schema : Schema) : Node → Resolver (Yaml × Nat)
  | .alias name => follow name
  | .scalar anchor v => do
    let place ← declare anchor v
    settle place v 1
    return (v, 1)
  | .list anchor shown items => do
    let place ← declare anchor (.list [])
    let (values, weight) ← itemValues schema items
    let v := match shown with
      | some t => Yaml.other t
      | none => .list values
    settle place v weight
    return (v, weight)
  | .mapping anchor shown entries => do
    let place ← declare anchor (.mapping [])
    let (values, weight) ← entryValues schema [] entries
    let v := match shown with
      | some t => Yaml.other t
      | none => .mapping values
    settle place v weight
    return (v, weight)

def itemValues (schema : Schema) : List Node → Resolver (List Yaml × Nat)
  | [] => return ([], 0)
  | item :: rest => do
    let (v, weight) ← item.value schema
    let (values, others) ← itemValues schema rest
    return (v :: values, max weight others)

def entryValues (schema : Schema) (found : Assoc String Yaml) :
    List (Node × Node) → Resolver (Assoc String Yaml × Nat)
  | [] => return (found, 0)
  | (key, node) :: rest => do
    let (k, keyWeight) ← key.value schema
    let (v, weight) ← node.value schema
    let found ←
      if isMergeKey schema key then
        match v with
        | .list sources => sources.foldlM (fun found source => mergeEntries found source) found
        | source => mergeEntries found source
      else pure (found.set (keyName k) v)
    let (entries, others) ← entryValues schema found rest
    return (entries, max (max keyWeight weight) others)

end

/-- The value of the only document of a text; an empty one is the null. -/
def parse (text : String) : Except ReadError Yaml := do
  match (Layout.ofString text).document? with
  | none => throw .malformed
  | some (d, root) => return ((← (root.value d.schema).run #[]).1).1

end Marshal.Yaml
