import Marshal.MessagePack.Format
import Marshal.Table.Payload
import Marshal.Collect

namespace Marshal.MessagePack

def unexpectedEnd : Fault := .error "Unexpected end of MessagePack data"
def unexpectedEndOfBuffer : Fault := .error "Unexpected end of buffer"
def trailingData : Fault := .error "Data read, but end of buffer not reached"
def unknownExtension (type : String) : Fault := .error ("Unknown extension " ++ type)
def unknownExtensionType (type : String) : Fault := .error ("Unknown extension type " ++ type)
def unknownStorage (code : String) : Fault :=
  .error ("Could not find typed array for code " ++ code)
def invalidName (sort : String) : Fault := .error ("Invalid property type for record: " ++ sort)

/-- What an anchor stands for, and whether a pointer asked for it. -/
structure Anchored where
  value : Value
  used : Bool := false

structure Cursor where
  pos : Nat := 0
  /-- Names of the shapes defined so far, newest first. -/
  shapes : List (Nat × List String) := []
  anchors : Array Anchored := #[]
  /-- The place in `anchors` of each number, newest first. -/
  anchorIds : List (Nat × Nat) := []

abbrev Reader := StateT Cursor Action

namespace Reader

variable (src : ByteArray)

def peek? : Reader (Option UInt8) := do return src[(← get).pos]?

/-- The next byte; the cursor moves on even past the end. -/
def byte? : Reader (Option UInt8) := do
  let b ← peek? src
  modify fun c => { c with pos := c.pos + 1 }
  return b

/-- A stretch of bytes, cut off at the end of the source. -/
def take (n : Nat) : Reader ByteArray := do
  let c ← get
  set { c with pos := c.pos + n }
  return Bytes.slice src c.pos n

/-- A number of fixed width, all of which has to be there. -/
def fixed (width : Nat) : Reader Nat := do
  let c ← get
  if src.size < c.pos + width then throw .outOfRange
  set { c with pos := c.pos + width }
  return Bytes.bigEndian (Bytes.slice src c.pos width).toList

def byteAt (i : Nat) : Nat := ((src[i]?).map UInt8.toNat).getD 0

/-- Characters from `pos` until `stop` is reached. A lead byte takes its following bytes whatever
they are, so the last character may reach past `stop`; what is no character is replaced. -/
def charsFrom (stop : Nat) : (fuel pos : Nat) → List Char × Nat
  | 0, pos => ([], pos)
  | fuel + 1, pos =>
    if stop ≤ pos then ([], pos)
    else
      let b := byteAt src pos
      let low (i : Nat) := byteAt src (pos + i) % 64
      let (c, width) :=
        if b < 0x80 then (Char.ofNat b, 1)
        else if 0xc0 ≤ b ∧ b < 0xe0 then
          let n := b % 32 * 64 + low 1
          (if n < 0x80 then Text.replacement else Char.ofNat n, 2)
        else if 0xe0 ≤ b ∧ b < 0xf0 then
          let n := (b % 16 * 64 + low 1) * 64 + low 2
          (if n < 0x800 ∨ (0xd800 ≤ n ∧ n ≤ 0xdfff) then Text.replacement else Char.ofNat n, 3)
        else if 0xf0 ≤ b ∧ b < 0xf8 then
          let n := ((b % 8 * 64 + low 1) * 64 + low 2) * 64 + low 3
          (if n < 0x10000 ∨ 0x10ffff < n then Text.replacement else Char.ofNat n, 4)
        else (Text.replacement, 1)
      let (rest, after) := charsFrom stop fuel (pos + width)
      (c :: rest, after)

/-- Texts longer than this are decoded as a whole. -/
def shortText : Nat := 64

/-- A text of `n` bytes. A long text loses a byte order mark at its start. -/
def text (n : Nat) : Reader String := do
  if shortText < n then
    let cs := (Text.ofUtf8 (← take src n)).toList
    return String.ofList (if cs.head? == some (Char.ofNat 0xfeff) then cs.drop 1 else cs)
  else
    let c ← get
    let (cs, after) := charsFrom src (c.pos + n) n c.pos
    set { c with pos := after }
    return String.ofList cs

/-- The names an object of an envelope may have: `__proto__` is not among them. -/
def safeName (name : String) : String := if name == "__proto__" then "__proto_" else name

def nameOf (v : Value) : Reader String := do
  match v with
  | .object _ => throw (invalidName ((← getThe Graph).sortName v))
  | .symbol _ => throw (invalidName "symbol")
  | v => return safeName (v.text?.getD v.scalarText)

/-- Sources below this size have the names of their objects compared in words of four bytes. -/
def wordwiseLimit : Nat := 180

/-- The name of a field in an envelope. A short name is looked at in words, which have to lie within
the source. -/
def name (read : Reader Value) : Reader String := do
  match ← peek? src with
  | some b =>
    if 0xa0 ≤ b ∧ b < 0xc0 then
      let n := b.toNat - 0xa0
      modify fun c => { c with pos := c.pos + 1 }
      let c ← get
      let words := if n ≤ 3 then 0 else (n - 3 + 3) / 4
      let reach := max (if 1 < n then 2 else 0) (4 * words)
      if src.size < wordwiseLimit ∧ src.size < c.pos + reach then throw .outOfRange
      return safeName (← text src n)
    else nameOf (← read)
  | none => nameOf (← read)

def times (read : Reader α) : Nat → Reader (List α)
  | 0 => return []
  | n + 1 => do
    let first ← read
    return first :: (← times read n)

def listOf (read : Reader Value) (n : Nat) : Reader Value := do
  let items ← times read n
  Action.newList items

def mapOf (d : Dialect) (read : Reader Value) (n : Nat) : Reader Value := do
  match d with
  | .whole =>
    let pairs ← times (do
      let k ← read
      return (k, ← read)) n
    Action.newMap (entriesOf pairs)
  | .envelope =>
    let pairs ← times (do
      let k ← name src read
      return (k, ← read)) n
    Action.newRecord (Fields.ofList pairs)

def recordOf (read : Reader Value) (names : List String) : Reader Value := do
  let pairs ← names.mapM fun k => do return (safeName k, ← read)
  Action.newRecord (Fields.ofList pairs)

def shapeNames (v : Value) : Reader (List String) := do
  let some o ← Action.objectOf? v | throw .misuse
  match o.body with
  | .list _ | .numbers .. => (o.indexed.filterMap id).mapM nameOf
  | _ => throw .misuse

def shape (read : Reader Value) (id : Nat) : Reader Value := do
  let names ← shapeNames (← read)
  modify fun c => { c with shapes := (id, names) :: c.shapes }
  recordOf read names

/-- The number before the cursor. -/
def anchorId : Reader Nat := do
  let c ← get
  if c.pos < 4 ∨ src.size < c.pos then throw .outOfRange
  return Bytes.bigEndian (Bytes.slice src (c.pos - 4) 4).toList

/-- An empty object of the sort the next byte announces. -/
def placeholder : Reader Value := do
  let c ← get
  let token := byteAt src c.pos
  let second := src[c.pos + 1]?
  if (0x90 ≤ token ∧ token < 0xa0) ∨ token = 0xdc ∨ token = 0xdd then Action.newList []
  else if (0x80 ≤ token ∧ token < 0x90) ∨ token = 0xde ∨ token = 0xdf then Action.newMap []
  else if ((0xc7 ≤ token ∧ token ≤ 0xc9) ∨ (0xd4 ≤ token ∧ token ≤ 0xd8)) ∧ second = some setType
  then Action.newSet []
  else Action.newRecord []

/-- Stores an entry among the items of a list or the fields of another object. -/
def assignEntry (o : Object) (key : String) (v : Value) : Object :=
  match o.body, indexOfKey? key with
  | .list items, some i =>
    let padded := items ++ List.replicate (i + 1 - items.length) none
    { o with body := .list (padded.set i (some v)) }
  | _, _ => { o with fields := o.fields.set key v }

/-- Gives a placeholder that was pointed at what the read value holds. -/
def fill (target read : Value) : Reader Unit := do
  let .object ref := target | return
  let some o ← Action.objectOf? target | return
  let source ← Action.objectOf? read
  let entries : List (String × Value) :=
    match source, read.characters? with
    | some s, _ => s.entries
    | none, some cs => cs.zipIdx.map fun (c, i) => (toString i, c)
    | none, none => []
  let o := entries.foldl (fun o (k, v) => assignEntry o k v) o
  match o.body, source.map Object.body with
  | .map own, some (.map more) =>
    let all := more.foldl (fun es (k, v) => setEntry es k v) own
    Action.put ref { o with body := .map all }
  | .map _, _ =>
    Action.put ref o
    throw .misuse
  | .set own, some (.set more) =>
    Action.put ref { o with body := .set (more.foldl addMember own) }
  | _, _ => Action.put ref o

/-- Remembers the next value under a number, so that it can be pointed at even from inside
itself. -/
def anchor (read : Reader Value) : Reader Value := do
  let id ← anchorId src
  let target ← placeholder src
  let place := (← get).anchors.size
  modify fun c => { c with
    anchors := c.anchors.push { value := target }, anchorIds := (id, place) :: c.anchorIds }
  let v ← read
  if ((← get).anchors[place]?).any (·.used) then
    fill target v
    return target
  else
    modify fun c => { c with anchors := c.anchors.setIfInBounds place { value := v } }
    return v

def pointer : Reader Value := do
  let id ← anchorId src
  let c ← get
  let some place := c.anchorIds.lookup id | throw .misuse
  let some found := c.anchors[place]? | throw .misuse
  set { c with anchors := c.anchors.setIfInBounds place { found with used := true } }
  return found.value

/-- An error from its name, message and cause. A name that is no class of errors is kept as a
field. -/
def errorOf (data : Value) : Reader Value := do
  let name ← Action.property data "0"
  let message ← Action.property data "1"
  let cause ← Action.property data "2"
  let nameText ← Action.key name
  if nameText == "AggregateError" then
    let _ ← Action.iterate message
    Action.add
      { kind := some (.errorOfKind nameText), body := .error (some "[object Object]") none }
  else
    let shown ← match message with
      | .undefined => pure none
      | v => some <$> Action.text v
    if nameText == "Error" then
      Action.add { kind := some .error, body := .error shown (some cause) }
    else if Class.errorKinds.contains nameText then
      Action.add { kind := some (.errorOfKind nameText), body := .error shown (some cause) }
    else
      Action.add
        { kind := some .error, fields := [("name", name)], body := .error shown (some cause) }

def bigintOf (data : List UInt8) : Reader Value := do
  if data.isEmpty then throw .misuse
  return .bigint (Bytes.signed data.length (Bytes.bigEndian data))

def storageOf (data : ByteArray) : Reader Value := do
  let bytes := data.extract 1 data.size
  match data[0]? with
  | none => throw (unknownStorage "undefined")
  | some code =>
    match DType.all[code.toNat]? with
    | some dtype =>
      if bytes.size % dtype.width = 0 then Action.newArray ⟨dtype, bytes⟩ else throw .outOfRange
    | none =>
      if code = 0x10 then Action.add { kind := some .arrayBuffer, body := .buffer bytes }
      else if code = 0x11 then Action.add { kind := some .dataView, body := .view bytes }
      else throw (unknownStorage (toString code.toNat))

/-- Nanoseconds as milliseconds, rounded once, on top of whole seconds. -/
def timeFrom (nanoseconds : Nat) (seconds : Int) : Option Int :=
  let milli := Number.ofRatio false nanoseconds 1000000
  Action.clip ((milli.add (Number.ofInt (seconds * 1000))).truncate?)

def timeOf (data : List UInt8) : Option Int :=
  let n (i count : Nat) : Nat := Bytes.bigEndian ((data.drop i).take count)
  match data.length with
  | 4 => Action.clip (some (n 0 4 * 1000))
  | 8 => timeFrom (n 0 4 / 4) (Int.ofNat (n 0 4 % 4 * 0x100000000 + n 4 4))
  | 12 =>
    let sign : Int := if n 4 1 < 0x80 then 0 else -0x1000000000000
    timeFrom (n 0 4) (sign + Int.ofNat (n 6 6))
  | _ => none

/-- A known extension with its data; nothing for an unknown type. -/
def extension? (read : Reader Value) (type : UInt8) (data : ByteArray) : Option (Reader Value) :=
  if type = 0 then some (return .undefined)
  else if type = bigintType then some (bigintOf data.toList)
  else if type = errorType then some (do errorOf (← read))
  else if type = anchorType then some (anchor src read)
  else if type = pointerType then some (pointer src)
  else if type = setType then some (do Action.setOf (← read))
  else if type = arrayType then some (storageOf data)
  else if type = patternType then some (do
    let data ← read
    Action.patternOf (← Action.property data "0") (← Action.property data "1"))
  else if type = timeType then some (Action.newDate (timeOf data.toList))
  else none

def sized (read : Reader Value) (length : Nat) : Reader Value := do
  match ← byte? src with
  | none => throw (unknownExtensionType "undefined")
  | some type =>
    let data ← take src length
    if type = tableType ∨ type = columnType then throw .misuse
    match extension? src read type data with
    | some action => action
    | none => throw (unknownExtensionType (toString type.toNat))

def single (read : Reader Value) : Reader Value := do
  match ← byte? src with
  | none => throw (unknownExtension "undefined")
  | some type =>
    if type = shapeType then
      let id := ((← byte? src).map UInt8.toNat).getD 0
      shape read (0x40 + id % 0x40)
    else
      let data ← take src 1
      if type = columnType then Table.readColumn (← read)
      else if type = tableType then Table.readTable (← read)
      else
        match extension? src read type data with
        | some action => action
        | none => throw (unknownExtension (toString type.toNat))

/-- Reads one value. Every value takes a byte, so the fuel bounds the nesting. -/
def value (d : Dialect) : (fuel : Nat) → Reader Value
  | 0 => throw unexpectedEnd
  | fuel + 1 => do
    let read := value d fuel
    let some b ← byte? src | throw unexpectedEnd
    let n := b.toNat
    if n < 0x40 then return .nat n
    else if n < 0x80 then
      match (← get).shapes.lookup n with
      | some names => recordOf read names
      | none => return .nat n
    else if n < 0x90 then mapOf src d read (n - 0x80)
    else if n < 0xa0 then listOf read (n - 0x90)
    else if n < 0xc0 then return .string (← text src (n - 0xa0))
    else if 0xe0 ≤ n then return .int (Int.ofNat n - 0x100)
    else
      match n with
      | 0xc0 => return .null
      | 0xc1 => return .object Graph.reservedRef
      | 0xc2 => return .bool false
      | 0xc3 => return .bool true
      | 0xc4 =>
        let some length ← byte? src | throw unexpectedEndOfBuffer
        Action.newBytes (← take src length.toNat)
      | 0xc5 =>
        let length ← fixed src 2
        Action.newBytes (← take src length)
      | 0xc6 =>
        let length ← fixed src 4
        Action.newBytes (← take src length)
      | 0xc7 =>
        let length := ((← byte? src).map UInt8.toNat).getD 0
        sized src read length
      | 0xc8 => sized src read (← fixed src 2)
      | 0xc9 => sized src read (← fixed src 4)
      | 0xca => return .number (Number.ofSingle (UInt32.ofNat (← fixed src 4)))
      | 0xcb => return .number (Number.ofBits (UInt64.ofNat (← fixed src 8)))
      | 0xcc =>
        match ← byte? src with
        | some b => return .nat b.toNat
        | none => return .undefined
      | 0xcd => return .nat (← fixed src 2)
      | 0xce => return .nat (← fixed src 4)
      | 0xcf => return .bigint (Int.ofNat (← fixed src 8))
      | 0xd0 => return .int (Bytes.signed 1 (← fixed src 1))
      | 0xd1 => return .int (Bytes.signed 2 (← fixed src 2))
      | 0xd2 => return .int (Bytes.signed 4 (← fixed src 4))
      | 0xd3 => return .bigint (Bytes.signed 8 (← fixed src 8))
      | 0xd4 => single src read
      | 0xd5 => sized src read 2
      | 0xd6 => sized src read 4
      | 0xd7 => sized src read 8
      | 0xd8 => sized src read 16
      | 0xd9 =>
        let length := ((← byte? src).map UInt8.toNat).getD 0
        return .string (← text src length)
      | 0xda =>
        let length ← fixed src 2
        return .string (← text src length)
      | 0xdb =>
        let length ← fixed src 4
        return .string (← text src length)
      | 0xdc => listOf read (← fixed src 2)
      | 0xdd => listOf read (← fixed src 4)
      | 0xde => mapOf src d read (← fixed src 2)
      | _ => mapOf src d read (← fixed src 4)

end Reader

/-- Reads a message that has to end where the source ends. -/
def decode (d : Dialect) (src : ByteArray) : Action Value := do
  let (v, cursor) ← (Reader.value src d (src.size + 2)).run {}
  if src.size < cursor.pos then throw unexpectedEnd
  else if cursor.pos < src.size then throw trailingData
  else return v

end Marshal.MessagePack
