import Marshal.Registry.Serialize

namespace Marshal

namespace TypeRef

/-- The type of a class, under the class's own name. -/
def ofClass (c : Class) : TypeRef := ⟨c.name, some c⟩

end TypeRef

namespace Defaults

open Marshal.Action

def tuple (items : List Value) : Action Value := newList items

def misfit {α : Type} : Action α := throw .misuse

/-- Whole numbers of any size travel as decimal text. -/
def writeBigint (v : Value) : Action Value := do
  match v, (← objectOf? v).map Object.body with
  | .bigint n, _ | _, some (.boxed (.bigint n)) => tuple [.string (toString n)]
  | _, _ => misfit

def readBigint (data : Value) : Action Value := do
  return .bigint (← wholeNumber (slot (← iterate data) 0))

def writeMap (v : Value) : Action Value := do
  match (← objectOf? v).map Object.body with
  | some (.map entries) =>
    tuple [← newList (entries.map Prod.fst), ← newList (entries.map Prod.snd)]
  | _ => misfit

/-- Pairs every key with the value at its place. -/
def readMap (data : Value) : Action Value := do
  let items ← iterate data
  let keys := slot items 0
  let values := slot items 1
  let some o ← objectOf? keys | misfit
  match o.body with
  | .list keys =>
    let pairs ← keys.zipIdx.mapM fun (key, i) => do
      match key with
      | some key => return some (key, ← property values (toString i))
      | none => return none
    if pairs.any Option.isNone then misfit
    newMap (entriesOf (pairs.filterMap id))
  | .numbers dtype bytes =>
    if NumberArray.length ⟨dtype, bytes⟩ = 0 then newMap []
    else
      let _ ← property values "0"
      match dtype with
      | .int64 | .uint64 => throw .malformed
      | _ => misfit
  | _ => misfit

def writeSet (v : Value) : Action Value := do
  match (← objectOf? v).map Object.body with
  | some (.set members) => tuple [← newList members]
  | _ => misfit

def readSet (data : Value) : Action Value := do setOf (slot (← iterate data) 0)

def writeDate (v : Value) : Action Value := do
  match (← objectOf? v).map Object.body with
  | some (.date (some ms)) => tuple [.int ms]
  | some (.date none) => tuple [.number Number.nan]
  | _ => misfit

def readDate (data : Value) : Action Value := do newDate (← time (slot (← iterate data) 0))

def writePattern (v : Value) : Action Value := do
  tuple [← property v "source", ← property v "flags"]

def readPattern (data : Value) : Action Value := do
  let items ← iterate data
  patternOf (slot items 0) (slot items 1)

def writeList (v : Value) : Action Value := do tuple (← iterate v)

def readList (data : Value) : Action Value := return data

def writeArray (v : Value) : Action Value := do
  match (← objectOf? v).bind Object.numbers? with
  | some a =>
    let (dtype, bytes) := a.encode
    tuple [.string dtype, ← newArray ⟨.uint8, bytes⟩]
  | none => misfit

/-- What storing a value into a byte leaves there. -/
def storedByte : Value → Action UInt8
  | .number x => return x.lowByte
  | .bool b => return if b then 1 else 0
  | .bigint _ | .symbol _ => misfit
  | _ => return 0

/-- The bytes that storing the items of a value one after the other leaves in an array of the given
size. -/
def stored (v : Value) (size : Nat) : Action ByteArray := do
  let some o ← objectOf? v | return ByteArray.empty
  let items ← match o.body with
    | .numbers .. => pure (o.indexed.filterMap id)
    | .buffer _ | .view _ => pure []
    | _ => indexedValues size v
  if size < items.length then throw .outOfRange
  let bytes ← items.mapM storedByte
  return Bytes.ofList (bytes ++ List.replicate (size - bytes.length) 0)

/-- Builds a number array from the name of an element kind and a value with a length in bytes. -/
def arrayOf (dtype data : Value) : Action Value := do
  let d ← match dtype with
    | .string s =>
      match DType.ofName? s with
      | some d => pure d
      | none => throw (NumberArray.unknownKind s)
    | v => throw (NumberArray.unknownKind (← text v))
  let size ← property data "byteLength"
  let partialElement : Action Value := do throw (NumberArray.partialElement (← text size) d)
  let known : Action Nat :=
    match size with
    | .null => pure 0
    | .bool b => pure (if b then 1 else 0)
    | .number x =>
      match x.toInt? with
      | some n => if n < 0 then throw .outOfRange else pure n.toNat
      | none => pure 0
    | _ => pure 0
  let whole := match size with
    | .null => true
    | .bool b => !b || d.width = 1
    | .number x =>
      match x.toInt? with
      | some n => n % Int.ofNat d.width = 0
      | none => false
    | _ => false
  if !whole then return ← partialElement
  let n ← known
  match (← get).bytes? data with
  | some bytes =>
    match NumberArray.decode d.name bytes with
    | .ok a => newArray a
    | .error fault => throw fault
  | none => newArray ⟨d, ← stored data n⟩

def readArray (data : Value) : Action Value := do
  let items ← iterate data
  arrayOf (slot items 0) (slot items 1)

def writeColumn (v : Value) : Action Value := do tuple (← Table.columnToStructure v)

def writeTable (v : Value) : Action Value := do tuple (← Table.toStructure v)

def fresh (write read : Value → Action Value) : Codec := ⟨⟨none, write⟩, ⟨none, read⟩⟩

def columnCodec : Codec :=
  ⟨⟨some "Marshal.Column.write", writeColumn⟩,
    ⟨some "Marshal.Column.read", Table.columnOfStructure⟩⟩

def tableCodec : Codec :=
  ⟨⟨some "Marshal.Table.write", writeTable⟩,
    ⟨some "Marshal.Table.read", Table.ofStructure⟩⟩

def handlers : List (Class × String × Codec) :=
  [(.bigint, "bigint", fresh writeBigint readBigint),
    (.map, "Map", fresh writeMap readMap),
    (.set, "Set", fresh writeSet readSet),
    (.date, "Date", fresh writeDate readDate),
    (.pattern, "RegExp", fresh writePattern readPattern),
    (.array, "list", fresh writeList readList),
    (.typedArray, "ndarray", fresh writeArray readArray),
    (.column, "Column", columnCodec),
    (.table, "Table", tableCodec)]

end Defaults

namespace Registry

def registerDefaults (r : Registry) : Reporting Registry :=
  Defaults.handlers.foldlM (fun r (c, tag, codec) => r.register (.ofClass c) tag codec) r

def standard (options : Options) : Reporting Registry :=
  (new { options with name := some (options.name.getD "default") }).registerDefaults

/-- A copy that hands tables, columns and number arrays to the fallback codec whole. -/
def lightweight (base : Registry) (options : Options) : Reporting Registry := do
  let r ← base.clone { options with name := some (options.name.getD "lightweight") }
  let r ← r.registerPickled (.ofClass .table) "Table"
  let r ← r.registerPickled (.ofClass .column) "Column"
  r.registerPickled (.ofClass .typedArray) "ndarray"

end Registry

end Marshal
