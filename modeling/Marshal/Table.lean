import Marshal.Describe

namespace Marshal

/-- Stores a value under a name. The object gets a field of its own, unless it has none yet and its
class provides the name. -/
def Object.store (o : Object) (name : String) (v : Value) : Except Fault Object :=
  match if (o.fields.get? name).isSome then none else o.kind.bind (·.member? name) with
  | none => .ok { o with fields := o.fields.set name v }
  | some member =>
    match member.write with
    | .own => .ok { o with fields := o.fields.set name v }
    | .field other => .ok { o with fields := o.fields.set other v }
    | .dropped => .ok o
    | .fails fault => .error fault

/-- The class of the objects that descend from an object. -/
def Graph.classBelow (g : Graph) (parent : Value) : Class :=
  let entries := ((g.objectOf? parent).map Object.entries).getD []
  let members := entries.map fun (name, w) => Class.shared name w
  match g.classOf? parent with
  | some p => .sub ⟨p.name, members, none⟩ p
  | none => .root ⟨"", members, none⟩

/-- Makes an object descend from another one. A scalar other than null changes nothing. -/
def Object.descend (g : Graph) (o : Object) (parent : Value) : Object :=
  match parent with
  | .null => { o with kind := none }
  | .object _ => { o with kind := some (g.classBelow parent) }
  | _ => o

/-- Assigns to a name of an object. What is assigned to the name of the ancestry replaces the
object's class. -/
def Object.assign (g : Graph) (o : Object) (name : String) (v : Value) : Except Fault Object :=
  if name == "__proto__" && o.kind.any (·.isWithin .object) then .ok (o.descend g v)
  else o.store name v

namespace Action

def assign (o : Object) (name : String) (v : Value) : Action Object := do
  match o.assign (← get) name v with
  | .ok r => return r
  | .error fault => throw fault

end Action

namespace Table

open Marshal.Action

def newColumn (name values : Value) : Action Value :=
  add { kind := some .column, fields := [("name", name), ("values", values)] }

def duplicateName (name : String) : Fault := .error s!"Duplicate column name: {name}"

def unevenColumn (name rows expected : String) : Fault :=
  .rangeError s!"Column {name} has {rows} rows, expected {expected}"

/-- Checks columns from left to right: a name met before, then a length other than the first
column's. -/
def check (first : Value) : (names : List Value) → (columns : List Value) → Action Unit
  | _, [] => return
  | names, column :: rest => do
    let name ← property column "name"
    if names.any (·.same name) then throw (duplicateName (← text name))
    let rows ← property column "length"
    let expected ← property first "length"
    if !rows.equals expected then
      throw (unevenColumn (← text name) (← text rows) (← text expected))
    check first (name :: names) rest

def build (columns : List Value) : Action Value := do
  check (columns.head?.getD .undefined) [] columns
  let list ← newList columns
  add { kind := some .table, fields := [("columns", list)] }

/-- A column for each entry of an object. -/
def ofRecord (record : Value) : Action Value := do
  let entries := ((← objectOf? record).map Object.entries).getD []
  build (← entries.mapM fun (name, values) => newColumn (.string name) values)

def columnItems (table : Value) : Action (List (Option Value)) := do
  let columns ← property table "columns"
  match (← get).items? columns with
  | some items => return items
  | none => throw .misuse

def columnNames (table : Value) : Action Value := property table "columnNames"

def numRows (table : Value) : Action Value := property table "numRows"

def getColumn (table name : Value) : Action Value := do
  let rec find : List (Option Value) → Action Value
    | [] => return .undefined
    | item :: rest => do
      let column := item.getD .undefined
      if (← property column "name").equals name then return column
      find rest
  find (← columnItems table)

/-- The value of a column at an index. -/
def valueAt (column index : Value) : Action Value := do
  let values ← property column "values"
  if values.isNullish then throw .misuse
  property values (← key index)

/-- Assigns what a column has at an index to a record, under the column's name. -/
def assignCell (index : Value) (record : Object) (column : Value) : Action Object := do
  let name ← property column "name"
  let v ← valueAt column index
  assign record (← key name) v

def row (table index : Value) : Action Value := do
  let columns := (← columnItems table).map (·.getD .undefined)
  let record ← columns.foldlM (assignCell index) ({ kind := some .object } : Object)
  add record

def toStructure (table : Value) : Action (List Value) := do
  let names ← columnNames table
  let columns ← columnItems table
  let values ← columns.mapM fun item =>
    match item with
    | some column => some <$> property column "values"
    | none => pure none
  return [names, ← add { kind := some .array, body := .list values }]

def columnToStructure (column : Value) : Action (List Value) := do
  return [← property column "name", ← property column "values"]

def columnOfStructure (pair : Value) : Action Value := do
  let items ← iterate pair
  newColumn (slot items 0) (slot items 1)

def countMismatch (names columns : String) : Fault :=
  .rangeError s!"Table structure has {names} names for {columns} columns"

/-- What storing an object into a number array leaves there. -/
def storedObject (d : DType) : Action Value :=
  match d with
  | .float32 | .float64 => pure (.number Number.nan)
  | .int64 | .uint64 => throw .malformed
  | _ => pure (.nat 0)

/-- A table from names and values in the same order. -/
def ofStructure (pair : Value) : Action Value := do
  let items ← iterate pair
  let names := slot items 0
  let columns := slot items 1
  let nameCount ← property names "length"
  let columnCount ← property columns "length"
  if !nameCount.equals columnCount then
    throw (countMismatch (← text nameCount) (← text columnCount))
  let some o ← objectOf? names | throw .misuse
  let valuesAt (i : Nat) : Action Value := property columns (toString i)
  match o.body with
  | .list items =>
    let built ← items.zipIdx.mapM fun (item, i) =>
      match item with
      | some name => do newColumn name (← valuesAt i)
      | none => pure .undefined
    build built
  | .numbers d _ =>
    let built ← o.indexed.zipIdx.mapM fun (_, i) => do
      let _ ← valuesAt i
      storedObject d
    build built
  | _ => throw .misuse

end Table

end Marshal
