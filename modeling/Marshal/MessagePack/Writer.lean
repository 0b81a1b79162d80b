import Marshal.MessagePack.Format
import Marshal.Table.Payload

namespace Marshal.MessagePack

/-- What can be pointed back at: an object, or the names of a shape. -/
inductive Anchor where
  | object (ref : Ref)
  | shape (names : List String)
deriving DecidableEq

/-- A part of a message in the making. An anchor marks the place of something that may turn out to
be shared. -/
inductive Piece where
  | bytes (bytes : ByteArray)
  | anchor (a : Anchor)

/-- How many shapes have an identifier at a time. -/
def shapeLimit : Nat := 64

def firstShapeId : Nat := 0x40

structure Draft where
  /-- Last piece first. -/
  pieces : List Piece := []
  seen : List Anchor := []
  /-- Anchors met again, in the order of first repetition. -/
  shared : List Anchor := []
  /-- Shapes that have an identifier, oldest first. -/
  shapes : List (List String × Nat) := []
  shapeCount : Nat := 0

abbrev Writer := StateT Draft Action

def emit (bytes : List UInt8) : Writer Unit :=
  modify fun d => { d with pieces := .bytes (Bytes.ofList bytes) :: d.pieces }

def emitBytes (bytes : ByteArray) : Writer Unit :=
  modify fun d => { d with pieces := .bytes bytes :: d.pieces }

/-- The number of a shared anchor, given one if it has none yet. -/
def shareId (a : Anchor) : Writer Nat := do
  let d ← get
  match d.shared.findIdx? (· == a) with
  | some i => return i + 1
  | none =>
    set { d with shared := d.shared ++ [a] }
    return d.shared.length + 1

/-- Runs `first` at the first meeting of an anchor and writes a pointer at every later one. -/
def once (a : Anchor) (first : Writer Unit) : Writer Unit := do
  if (← get).seen.contains a then
    let id ← shareId a
    emit ([0xd6, pointerType] ++ be 4 id)
  else
    modify fun d => { d with seen := a :: d.seen, pieces := .anchor a :: d.pieces }
    first

def writeText (s : String) : Writer Unit := do
  let bytes := s.toUTF8
  emit (textHeader bytes.size)
  emitBytes bytes

def writeBinary (bytes : ByteArray) : Writer Unit := do
  emit (binaryHeader bytes.size)
  emitBytes bytes

def writeStorage (code : UInt8) (bytes : ByteArray) : Writer Unit := do
  emit (lengthHeader (bytes.size + 1) ++ [arrayType, code])
  emitBytes bytes

def tooLarge : String :=
  " was too large to fit in MessagePack 64-bit integer format, set useBigIntExtension, " ++
    "or set largeBigIntToFloat to convert to float-64, " ++
    "or set largeBigIntToString to convert to string"

def writeBigint (d : Dialect) (n : Int) : Writer Unit := do
  if -0x8000000000000000 ≤ n ∧ n < 0x8000000000000000 then emit (0xd3 :: be 8 (Bytes.unsigned 8 n))
  else if 0 < n ∧ n < 0x10000000000000000 then emit (0xcf :: be 8 n.toNat)
  else
    match d with
    | .whole =>
      let bytes := bigBytes n
      emit (extensionHeader bytes.length ++ bigintType :: bytes)
    | .envelope => throw (Fault.rangeError (toString n ++ tooLarge))

/-- Gives a shape the next identifier; the oldest shape loses its own when all are taken. -/
def defineShape (names : List String) : Writer Nat := do
  let d ← get
  let id := firstShapeId + d.shapeCount % shapeLimit
  let kept := if d.shapes.length < shapeLimit then d.shapes else d.shapes.drop 1
  set { d with shapes := kept ++ [(names, id)], shapeCount := d.shapeCount + 1 }
  return id

def writeShape (names : List String) : Writer Unit := do
  match (← get).shapes.lookup names with
  | some id => emit [UInt8.ofNat id]
  | none =>
    let id ← defineShape names
    emit [0xd4, shapeType, UInt8.ofNat id]
    once (.shape names) do
      emit (listHeader names.length)
      names.forM writeText

/-- The code of a number array's storage. Subclasses have none of their own. -/
def storageCode (kind : Option Class) (dtype : DType) : UInt8 :=
  if kind == some (.numbers dtype) then UInt8.ofNat (DType.all.idxOf dtype) else 0xff

/-- What an object's class shows in its place, as a new record. -/
def summarise (v : Value) (parts : List (String × Source)) : Action Value := do
  let fields ← parts.mapM fun (name, source) => do
    match source with
    | .field field => return (name, ← Action.property v field)
    | .text s => return (name, .string s)
  Action.newRecord (Fields.ofList fields)

def writeScalar (d : Dialect) : Value → Writer Unit
  | .null => emit [nilByte]
  | .undefined => emit undefinedBytes
  | .bool b => emit [boolByte b]
  | .number x => emit (numberBytes d x)
  | .string s => writeText s
  | v@(.brokenText _) => writeText (v.text?.getD "")
  | .bigint n => writeBigint d n
  | .symbol _ => throw (Fault.error "Unknown type: symbol")
  | .object _ => pure ()

def listItems (v : Value) (o : Object) : Action (List Value) := do
  match o.body with
  | .list items => return items.map (·.getD .undefined)
  | _ => Action.iterate v

/-- The class that decides how an object is written; a field of that name hides it. -/
def writtenClass? (o : Object) : Option Class :=
  if (o.fields.lookup "constructor").isSome then none else o.kind

/-- Writes a value. The fuel bounds the nesting. -/
def write (d : Dialect) : (fuel : Nat) → Value → Writer Unit
  | 0, _ => throw .outOfRange
  | fuel + 1, .object ref => do
    let v := Value.object ref
    let some o ← Action.objectOf? v | return
    let inner := write d fuel
    let tag (type : UInt8) : Writer Unit :=
      match d with
      | .whole => emit (tagBytes type)
      | .envelope => pure ()
    let writeItems (items : List Value) : Writer Unit := do
      emit (listHeader items.length)
      items.forM inner
    let writeFields : Writer Unit := do
      let entries := o.entries
      match d with
      | .whole => do
        writeShape (entries.map (·.1))
        entries.forM fun (_, w) => inner w
      | .envelope => do
        emit (fieldsHeader entries.length)
        entries.forM fun (name, w) => do
          writeText name
          inner w
    let storage (code : UInt8) (bytes : ByteArray) : Writer Unit :=
      match d with
      | .whole => writeStorage code bytes
      | .envelope => writeBinary bytes
    let body : Writer Unit := do
      let written := writtenClass? o
      let isIn (c : Class) : Bool := o.kind.any (·.isWithin c)
      if written == some .object then writeFields
      else if written == some .array then writeItems (← listItems v o)
      else if written == some .map then
        match o.body with
        | .map entries =>
          emit (mapHeader entries.length)
          entries.forM fun (k, w) => do
            inner k
            inner w
        | _ => throw .misuse
      else if isIn .table then
        emit (tagBytes tableType)
        inner (← Table.writeTable v)
      else if isIn .column then
        emit (tagBytes columnType)
        inner (← Table.writeColumn v)
      else if isIn .date then
        match o.body with
        | .date time => emit (timeBytes time)
        | _ => throw .misuse
      else if isIn .set then
        match o.body with
        | .set members =>
          tag setType
          inner (← Action.newList members)
        | _ => throw .misuse
      else if isIn .error then
        tag errorType
        inner (← Action.newList [← Action.property v "name", ← Action.property v "message",
          ← Action.property v "cause"])
      else if isIn .pattern then
        tag patternType
        inner (← Action.newList [← Action.property v "source", ← Action.property v "flags"])
      else if isIn .arrayBuffer then
        match o.body with
        | .buffer bytes => storage 0x10 bytes
        | _ => throw .misuse
      else if isIn .typedArray then
        match o.body with
        | .numbers dtype bytes =>
          if o.kind == some .bytes then writeBinary bytes
          else storage (storageCode o.kind dtype) bytes
        | _ => throw .misuse
      else if isIn .dataView then
        match o.body with
        | .view bytes => storage 0x11 bytes
        | _ => throw .misuse
      else if isIn .reserved then emit [0xc1]
      else
        match o.body with
        | .list items => writeItems (items.map (·.getD .undefined))
        | .function => emit undefinedBytes
        | _ =>
          match o.fields.lookup "toJSON", o.kind.bind (·.summary?) with
          | some own, _ =>
            match own, (← Action.objectOf? own).map Object.body with
            | _, some .function => inner .undefined
            | .object _, _ => throw .misuse
            | .string s, _ => if s.isEmpty then writeFields else throw .misuse
            | .bool b, _ => if b then throw .misuse else writeFields
            | .number x, _ =>
              if x.isNaN || x.equals Number.zero then writeFields else throw .misuse
            | .null, _ | .undefined, _ => writeFields
            | _, _ => throw .misuse
          | none, some (.parts parts) => inner (← summarise v parts)
          | none, _ => writeFields
    match d with
    | .whole => once (.object ref) body
    | .envelope => body
  | _, v => writeScalar d v

/-- Puts a number before each anchor that was met again. -/
def finish (d : Draft) : ByteArray :=
  d.pieces.reverse.foldl (fun out piece =>
    match piece with
    | .bytes bytes => out ++ bytes
    | .anchor a =>
      match d.shared.findIdx? (· == a) with
      | some i => out ++ Bytes.ofList ([0xd6, anchorType] ++ be 4 (i + 1))
      | none => out) ByteArray.empty

def encode (d : Dialect) (v : Value) : Action ByteArray := do
  let fuel := 4 * (← get).size + 8
  let (_, draft) ← (write d fuel v).run {}
  return finish draft

end Marshal.MessagePack
