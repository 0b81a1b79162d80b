import Marshal.Registry
import Marshal.Tree

namespace Marshal

/-- What a registry works on: itself, the values, and what it reported so far. The stack is the
number of calls that may be open one inside the other. -/
structure Scene where
  registry : Registry
  graph : Graph
  stack : Nat
  notices : List Notice := []

abbrev Step := ExceptT Fault (StateM Scene)

namespace Step

/-- Runs an action on the values; additions stay even if it fails. -/
def act {α : Type} (action : Action α) : Step (Except Fault α) := do
  let scene ← get
  let (result, graph) := action.run scene.graph
  set { scene with graph }
  return result

def note (n : Notice) : Step Unit := modify fun s => { s with notices := s.notices ++ [n] }

end Step

namespace Registry

open Step

/-- The failure of a codec, reported once. Failures of the registry itself pass unchanged, and an
error without a text for its message leaves what asking for the text raises. -/
def failure (e : Entry) (typeName : String) (direction : Direction) : Fault → Step Fault
  | .registry error => return .registry error
  | .wordless _ raised => return raised
  | .cause cause => do
    let error := RegistryError.codecFailure e.tag typeName direction cause
    let r := (← get).registry
    note (.entry ⟨r.name, .codecFailure e.tag typeName direction error.message⟩)
    return .registry error

def notRepresentation : Fault := .typeError "serializer returned neither bytes nor a tuple"

def checkDepth (depth : Nat) : Step Unit := do
  let limit := (← get).registry.maxDepth
  if limit.exceededBy depth then throw (.registry (.depthExceeded limit))

def dispatch (v : Value) : Step Entry := do
  let scene ← get
  let (e, registry) := scene.registry.resolve scene.graph v
  set { scene with registry }
  return e

def represent (e : Entry) (v : Value) : Step Value := do
  let typeName := (← get).graph.typeName v
  match ← act (e.codec.serialize.run v) with
  | .ok representation =>
    let g := (← get).graph
    if g.isBytes representation || (g.items? representation).isSome then return representation
    else throw (← failure e typeName .serialize notRepresentation)
  | .error fault => throw (← failure e typeName .serialize fault)

/-- Goes over positions of a list in their order. Each is looked at when its turn comes, and one
that is gone by then counts as absent. -/
def mapItems {α : Type} (f : Option Value → Step α) (list : Value) :
    (start count : Nat) → Step (List α)
  | _, 0 => return []
  | start, count + 1 => do
    let a ← f ((← get).graph.item? list start)
    return a :: (← mapItems f list (start + 1) count)

/-- What stands in a slot for an item of a tuple. Items that are no leaves are written as nodes. -/
def encodeItem (write : Value → Step Tree) : Option Value → Step Tree
  | none => return .hole
  | some v => do if (← get).graph.isLeaf v then return .leaf v else write v

/-- Serializes a value as a node at the given depth. The fuel is what is left of the stack. -/
def serializeAt : (fuel depth : Nat) → Value → Step Tree
  | 0, _, _ => throw .outOfRange
  | fuel + 1, depth, v => do
    checkDepth depth
    let e ← dispatch v
    let representation ← represent e v
    let g := (← get).graph
    if g.isBytes representation then return .packed e.tag representation
    else
      let count := ((g.items? representation).getD []).length
      let slots ← mapItems (encodeItem (serializeAt fuel (depth + 1))) representation 0 count
      return .tuple e.tag (g.kindOf? representation) slots

def serialize (v : Value) : Step Tree := do serializeAt (← get).stack 0 v

def entryForTag? (r : Registry) (tag : String) : Option Entry :=
  if tag == fallbackTag then some r.fallbackEntry else r.byTag.find? tag

/-- Checks that precede the reading of a node. -/
def enter (tag : String) (depth : Nat) : Step Entry := do
  checkDepth depth
  match (← get).registry.entryForTag? tag with
  | some e => return e
  | none => throw (.registry (.unregisteredTag tag))

def rebuild (e : Entry) (representation : Value) : Step Value := do
  match ← act (e.codec.deserialize.run representation) with
  | .ok v => return v
  | .error fault => throw (← failure e e.typeName .deserialize fault)

def newObject (o : Object) : Step Value := do
  let scene ← get
  set { scene with graph := scene.graph.add o }
  return .object scene.graph.size

/-- What becomes of an item of a list: a node is read, anything else stays as it is. -/
def decodeItem (read : String → Value → Step Value) : Option Value → Step (Option Value)
  | none => return none
  | some v => do
    match (← get).graph.look v with
    | .ok none => return some v
    | .ok (some (tag, data)) => return some (← read tag data)
    | .error fault => throw fault

/-- What a codec is given for the data of a node: bytes as they are, and a new list of what becomes
of the items of a list. Number arrays other than bytes are copied element by element. -/
def input (read : String → Value → Step Value) (data : Value) : Step Value := do
  let g := (← get).graph
  if g.isBytes data then return data
  else
    match (g.objectOf? data).map Object.body with
    | some (.list items) =>
      let items ← mapItems (decodeItem read) data 0 items.length
      newObject { kind := g.kindOf? data, body := .list items }
    | some (.numbers dtype bytes) =>
      newObject { kind := g.kindOf? data, body := .numbers dtype bytes }
    | _ => throw .misuse

/-- Reads a node at the given depth by its tag and its data. The fuel is what is left of the
stack. -/
def deserializeAt : (fuel depth : Nat) → (tag : String) → (data : Value) → Step Value
  | 0, _, _, _ => throw .outOfRange
  | fuel + 1, depth, tag, data => do
    let e ← enter tag depth
    rebuild e (← input (deserializeAt fuel (depth + 1)) data)

def deserialize (tag : String) (data : Value) : Step Value := do
  deserializeAt (← get).stack 0 tag data

/-- Puts a tree among the values and reads it by its tag and its data. -/
def deserializeTree (t : Tree) : Step Value := do
  let scene ← get
  let (data, graph) := scene.graph.place t
  set { scene with graph }
  match t.tag? with
  | some tag => deserialize tag data
  | none => return data

end Registry

end Marshal
