import Marshal.Graph
import Marshal.NumberArray
import Marshal.Text.Units

namespace Marshal

/-- A step that may extend the graph, and may fail; what was added stays. -/
abbrev Action := ExceptT Fault (StateM Graph)

namespace Action

def add (o : Object) : Action Value := do
  let g ← get
  set (g.add o)
  return .object g.size

def put (ref : Ref) (o : Object) : Action Unit := modify (·.put ref o)

def newList (items : List Value) : Action Value :=
  add { kind := some .array, body := .list (items.map some) }

def newRecord (fields : Fields) : Action Value := add { kind := some .object, fields }

def newBytes (bytes : ByteArray) : Action Value :=
  add { kind := some .bytes, body := .numbers .uint8 bytes }

def newArray (a : NumberArray) : Action Value :=
  add { kind := some (.numbers a.dtype), body := .numbers a.dtype a.bytes }

def newMap (entries : List (Value × Value)) : Action Value :=
  add { kind := some .map, body := .map entries }

def newSet (members : List Value) : Action Value :=
  add { kind := some .set, body := .set members }

def newDate (time : Option Int) : Action Value :=
  add { kind := some .date, body := .date time }

def objectOf? (v : Value) : Action (Option Object) := return (← get).objectOf? v

end Action

namespace Value

/-- The text of 16-bit units, kept as units if a surrogate stands alone. -/
def ofUnits (units : List UInt16) : Value :=
  match Text.charsOfUnits? units with
  | some cs => .string (String.ofList cs)
  | none => .brokenText units

/-- The text of a text value, a replacement for each surrogate that stands alone. -/
def text? : Value → Option String
  | string s => some s
  | brokenText units => some (String.ofList (Text.charsOfUnits units))
  | _ => none

def units? : Value → Option (List UInt16)
  | string s => some (Text.units s)
  | brokenText units => some units
  | _ => none

def characters? : Value → Option (List Value)
  | string s => some (s.toList.map fun c => .string (String.singleton c))
  | brokenText units => some (units.map fun u => ofUnits [u])
  | _ => none

end Value

namespace Object

def numbers? (o : Object) : Option NumberArray :=
  match o.body with
  | .numbers d bytes => some ⟨d, bytes⟩
  | _ => none

/-- Values stored under indices: the items of a list, the elements of a number array, the units of a
boxed text. -/
def indexed (o : Object) : List (Option Value) :=
  match o.body with
  | .list items => items
  | .numbers d bytes => (NumberArray.elements ⟨d, bytes⟩).map some
  | .boxed v => ((v.units?.getD []).map fun u => some (Value.ofUnits [u]))
  | _ => []

/-- The object's own names and values, indices first. -/
def entries (o : Object) : List (String × Value) :=
  (o.indexed.zipIdx.filterMap fun (item, i) => item.map (toString i, ·)) ++ o.fields

/-- Own and inherited facts that are not listed among the entries. -/
def hidden? (o : Object) (name : String) : Option Value :=
  match o.body, name with
  | .list items, "length" => some (.nat items.length)
  | .numbers d bytes, "length" => some (.nat (NumberArray.length ⟨d, bytes⟩))
  | .numbers _ bytes, "byteLength" => some (.nat bytes.size)
  | .numbers d _, "BYTES_PER_ELEMENT" => some (.nat d.width)
  | .numbers .., "byteOffset" => some (.nat 0)
  | .buffer bytes, "byteLength" | .view bytes, "byteLength" => some (.nat bytes.size)
  | .map entries, "size" => some (.nat entries.length)
  | .set members, "size" => some (.nat members.length)
  | .pattern source _, "source" => some (.string source)
  | .pattern _ flags, "flags" => some (.string flags)
  | .error message _, "message" => some (.string (message.getD ""))
  | .error _ cause, "cause" => some (cause.getD .undefined)
  | .boxed v, "length" => v.units?.map fun us => .nat us.length
  | .function, "length" => some (.nat 0)
  | .function, "name" => some (.string "")
  | _, _ => none

end Object

namespace Action

/-- The value under a name: an entry of the object, a fact about it, or what its class provides.
Columns compute their length and tables their sizes and names; any other computed name needs an
object of the right sort. The fuel bounds how often one computed value leads to the next. -/
def propertyWith : (fuel : Nat) → Value → String → Action Value
  | 0, _, _ => throw .outOfRange
  | fuel + 1, v, name => do
    match v with
    | .null | .undefined => throw .misuse
    | .string _ | .brokenText _ =>
      let units := v.units?.getD []
      if name == "length" then return .nat units.length
      match indexOfKey? name with
      | some i => return ((units[i]?).map fun u => Value.ofUnits [u]).getD .undefined
      | none => return .undefined
    | .object _ =>
      let some o ← objectOf? v | return .undefined
      match o.entries.lookup name <|> o.hidden? name with
      | some found => return found
      | none =>
        let provider := o.kind.bind (·.provider? name)
        if provider == some .column && name == "length" then
          propertyWith fuel (← propertyWith fuel v "values") "length"
        else if provider == some .table && (name == "numRows" || name == "columnNames") then
          let columns ← propertyWith fuel v "columns"
          let some list ← objectOf? columns | throw .misuse
          let .list items := list.body | throw .misuse
          if name == "numRows" then
            match items with
            | [] => return .nat 0
            | first :: _ => propertyWith fuel (first.getD .undefined) "length"
          else
            let names ← items.mapM fun item =>
              match item with
              | some column => some <$> propertyWith fuel column "name"
              | none => pure none
            add { kind := list.kind, body := .list names }
        else
          match o.read? v name with
          | none => return .undefined
          | some (.ok found) => return found
          | some (.error fault) => throw fault
    | _ => return .undefined

def property (v : Value) (name : String) : Action Value := do
  propertyWith ((← get).size + 2) v name

/-- The items of a value in order: a hole counts as undefined, a text gives its characters and a map
its entries as pairs. -/
def iterate (v : Value) : Action (List Value) := do
  match v with
  | .string _ | .brokenText _ => return v.characters?.getD []
  | .object _ =>
    let some o ← objectOf? v | throw .misuse
    match o.body with
    | .list items => return items.map (·.getD .undefined)
    | .numbers .. => return o.indexed.filterMap id
    | .set members => return members
    | .map entries => entries.mapM fun (k, w) => newList [k, w]
    | .boxed w => match w.characters? with
      | some cs => return cs
      | none => throw .misuse
    | .plain =>
      -- an object of the list class without list storage is read by its indices
      match o.kind with
      | some c =>
        if c.isWithin .array then
          let .number length := (o.fields.lookup "length").getD (.nat 0) | return []
          let count := (length.truncate?.getD 0).toNat
          return (List.range (min count 0x100000)).map fun i =>
            (o.fields.lookup (toString i)).getD .undefined
        else throw .misuse
      | none => throw .misuse
    | _ => throw .misuse
  | _ => throw .misuse

/-- The item at a position of an already read sequence. -/
def slot (items : List Value) (i : Nat) : Value := (items[i]?).getD .undefined

end Action

end Marshal
