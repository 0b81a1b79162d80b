import Marshal.Table

namespace Marshal.Table

open Marshal.Action

def notColumnPair : Fault := .typeError "Pickled column is not a [name, values] pair"
def notColumnList : Fault := .typeError "Pickled table is not a column list"
def notColumnValues : Fault :=
  .typeError "Pickled column values are neither an array nor a typed array"

/-- Whether a value can hold a column's values: a list or a number array. -/
def holdsValues (g : Graph) (v : Value) : Bool :=
  match (g.objectOf? v).map Object.body with
  | some (.list _) | some (.numbers ..) => true
  | _ => false

/-- A column from a pair of a text and values. -/
def readColumn (payload : Value) : Action Value := do
  match (← get).items? payload with
  | some [name, values] =>
    let name := name.getD .undefined
    if name.text?.isNone then throw notColumnPair
    let values := values.getD .undefined
    if holdsValues (← get) values then newColumn name values else throw notColumnValues
  | _ => throw notColumnPair

def readTable (payload : Value) : Action Value := do
  match (← get).items? payload with
  | some items =>
    build (← items.mapM fun item =>
      match item with
      | some pair => readColumn pair
      | none => pure .undefined)
  | none => throw notColumnList

/-- The pair of a column's name and values. -/
def writeColumn (column : Value) : Action Value := do newList (← columnToStructure column)

def writeTable (table : Value) : Action Value := do
  let pairs ← (← columnItems table).mapM fun item =>
    match item with
    | some column => some <$> writeColumn column
    | none => pure none
  add { kind := some .array, body := .list pairs }

end Marshal.Table
