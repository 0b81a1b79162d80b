import Marshal.Graph

namespace Marshal

/-- A serialized tree. Nodes carry a tag; what stands between them is not dispatched. -/
inductive Tree where
  /-- An absent item of a tuple. -/
  | hole
  /-- A scalar or a byte array, carried as it is. -/
  | leaf (v : Value)
  /-- A node whose data is a byte array. -/
  | packed (tag : String) (data : Value)
  /-- A node whose data is a tuple, stored in a list of the given class. -/
  | tuple (tag : String) (kind : Option Class) (slots : List Tree)

namespace Tree

def isNode : Tree → Bool
  | packed .. | tuple .. => true
  | _ => false

def tag? : Tree → Option String
  | packed tag _ | tuple tag .. => some tag
  | _ => none

/-- Levels of nodes below this one. -/
def depth : Tree → Nat
  | hole | leaf _ | packed .. => 0
  | tuple _ _ slots => slotsDepth slots
where
  slotsDepth : List Tree → Nat
    | [] => 0
    | t :: rest => max (if t.isNode then t.depth + 1 else 0) (slotsDepth rest)

end Tree

namespace Graph

/-- The class of the object behind a value. -/
def kindOf? (g : Graph) (v : Value) : Option Class := (g.objectOf? v).bind (·.kind)

/-- Whether a value counts as a byte array by its class. -/
def isBytes (g : Graph) (v : Value) : Bool := (g.kindOf? v).any (·.isWithin (.numbers .uint8))

/-- Whether a value stays as it is inside a tuple. -/
def isLeaf (g : Graph) (v : Value) : Bool := v.isPrimitive || g.isBytes v

/-- Looks whether a value is a node, that is whether it has a text for a tag and bytes or a list for
data, of its own or from its class. To look can fail, as a class may refuse to give the one or the
other. -/
def look (g : Graph) (v : Value) : Except Fault (Option (String × Value)) :=
  match g.objectOf? v with
  | none => .ok none
  | some o =>
    if o.body = .function then .ok none
    else
      match o.read? v "tag", o.read? v "data" with
      | some tag, some data => do
        match ← tag with
        | .string tag =>
          let data ← data
          return if g.isBytes data || (g.items? data).isSome then some (tag, data) else none
        | _ => return none
      | _, _ => .ok none

/-- The tag and the data of a node. A value that cannot be looked at, because its class refuses to
give its tag or its data, is none. -/
def node? (g : Graph) (v : Value) : Option (String × Value) := (g.look v).toOption.join

def item? (g : Graph) (list : Value) (i : Nat) : Option Value :=
  (((g.items? list).getD [])[i]?).join

def addList (g : Graph) (kind : Option Class) (items : List (Option Value)) : Value × Graph :=
  (.object g.size, g.add { kind, body := .list items })

def nodeRecord (tag : String) (data : Value) : Object :=
  { kind := some .object, fields := [("tag", .string tag), ("data", data)] }

mutual

/-- Puts a tree among the values. Nothing stands for a hole, a leaf stands for itself. -/
def embed (g : Graph) : Tree → Option Value × Graph
  | .hole => (none, g)
  | .leaf v => (some v, g)
  | .packed tag data => (some (.object g.size), g.add (nodeRecord tag data))
  | .tuple tag kind slots =>
    let (items, g) := g.embedSlots slots
    let (data, g) := g.addList kind items
    (some (.object g.size), g.add (nodeRecord tag data))

def embedSlots (g : Graph) : List Tree → List (Option Value) × Graph
  | [] => ([], g)
  | t :: rest =>
    let (item, g) := g.embed t
    let (items, g) := g.embedSlots rest
    (item :: items, g)

end

/-- Puts what is below the root of a tree among the values, and gives the data of the root. -/
def place (g : Graph) : Tree → Value × Graph
  | .hole => (.undefined, g)
  | .leaf v => (v, g)
  | .packed _ data => (data, g)
  | .tuple _ kind slots =>
    let (items, g) := g.embedSlots slots
    g.addList kind items

end Graph

end Marshal
