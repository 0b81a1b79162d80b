import Marshal.Action
import Marshal.Calendar
import Marshal.Text.Blank
import Marshal.Text.Utf8

namespace Marshal

namespace Action

def errorText (name message : String) : String :=
  if name.isEmpty then message
  else if message.isEmpty then name
  else name ++ ": " ++ message

/-- Classes whose instances have a text only if they hold the class's own storage. -/
def needsStorage (c : Class) : Bool :=
  [Class.date, .pattern, .number, .string, .boolean, .bigint, .symbol, .function, .typedArray].any
    (c.isWithin ·)

/-- The word in the text of an object that is shown by its class alone. -/
def shownClass (o : Object) : String :=
  match o.kind with
  | none => "Object"
  | some c =>
    match [Class.map, .set, .arrayBuffer, .dataView].find? (c.isWithin ·) with
    | some known => known.name
    | none =>
      match o.body with
      | .function => "Function"
      | _ => "Object"

/-- The text of a value. Lists join the texts of their items with commas, an absent item and a list
met inside itself being empty. The fuel bounds the nesting. -/
def textWith : (fuel : Nat) → (within : List Ref) → Value → Action String
  | 0, _, _ => throw .outOfRange
  | _, _, .symbol _ => throw .misuse
  | fuel + 1, within, .object ref => do
    if within.contains ref then return ""
    let some o ← objectOf? (.object ref) | return ""
    if (o.fields.lookup "toString").isSome then throw .misuse
    let inner (v : Value) : Action String :=
      match v with
      | .null | .undefined => pure ""
      | v => textWith fuel (ref :: within) v
    let fromFields : Action String := do
      let name ← property (.object ref) "name"
      let message ← property (.object ref) "message"
      let textOr (v : Value) (default : String) : Action String :=
        match v with
        | .undefined => pure default
        | v => textWith fuel (ref :: within) v
      return errorText (← textOr name "Error") (← textOr message "")
    match o.body with
    | .list items => return ",".intercalate (← items.mapM fun item => inner (item.getD .undefined))
    | .numbers _ bytes =>
      if o.kind == some .bytes then return Text.ofUtf8 bytes
      return ",".intercalate (← o.indexed.mapM fun item => inner (item.getD .undefined))
    | .date (some ms) => return Calendar.longText ms
    | .date none => return "Invalid Date"
    | .pattern source flags => return "/" ++ source ++ "/" ++ flags
    | .boxed v => textWith fuel (ref :: within) v
    | .function => return "() => \x7b\x7d"
    | .error .. => fromFields
    | .plain =>
      match o.kind with
      | none => throw .misuse
      | some c =>
        if c.isWithin .array then
          return ",".intercalate (← (← iterate (.object ref)).mapM inner)
        else if c.isWithin .error then fromFields
        else if needsStorage c then throw .misuse
        else return "[object " ++ shownClass o ++ "]"
    | _ => return "[object " ++ shownClass o ++ "]"
  | _, _, v => return v.scalarText

def text (v : Value) : Action String := do textWith (2 * (← get).size + 2) [] v

/-- A value as the name of a field. Names are texts of characters, so a replacement stands there for
each surrogate that stands alone. -/
def key (v : Value) : Action String :=
  match v with
  | .symbol id => pure ("@@" ++ toString id)
  | v => text v

/-- The scalar a value stands for: the boxed scalar, or the text. -/
def scalar (v : Value) : Action Value := do
  match v with
  | .object _ =>
    match (← objectOf? v).map Object.body with
    | some (.boxed w) => return w
    | _ => return .string (← text v)
  | v => return v

end Action

/-- The whole number a text spells: decimal with an optional sign, or with a base and no sign. Blank
text around it is left out, and no digits mean 0. -/
def wholeNumber? (s : String) : Option Int :=
  let cs := Text.trim s.toList
  let digitsIn (base : Nat) (ds : List Char) : Option Int :=
    if ds.isEmpty then none else (Text.natInBase? base ds).map Int.ofNat
  match cs with
  | [] => some 0
  | '0' :: 'x' :: ds | '0' :: 'X' :: ds => digitsIn 16 ds
  | '0' :: 'o' :: ds | '0' :: 'O' :: ds => digitsIn 8 ds
  | '0' :: 'b' :: ds | '0' :: 'B' :: ds => digitsIn 2 ds
  | '+' :: ds => digitsIn 10 ds
  | '-' :: ds => (digitsIn 10 ds).map (- ·)
  | ds => digitsIn 10 ds

namespace Action

/-- The whole number a value stands for. -/
def wholeNumber (v : Value) : Action Int := do
  let v ← match (← objectOf? v).map Object.body with
    | some (.date (some ms)) => pure (Value.int ms)
    | some (.date none) => pure (Value.number Number.nan)
    | _ => scalar v
  match v with
  | .bigint n => return n
  | .bool b => return if b then 1 else 0
  | .number x =>
    match x.toInt? with
    | some n => return n
    | none => throw .outOfRange
  | .string s =>
    match wholeNumber? s with
    | some n => return n
    | none => throw .malformed
  | .brokenText _ => throw .malformed
  | _ => throw .misuse

/-- A time within the range of dates. -/
def clip (ms : Option Int) : Option Int := ms.filter Calendar.inRange

/-- The time a value stands for: another date's, a number of milliseconds without its fraction, or a
text in the international form. -/
def time (v : Value) : Action (Option Int) := do
  let v ← match (← objectOf? v).map Object.body with
    | some (.date (some ms)) => return some ms
    | some (.date none) => return none
    | _ => scalar v
  match v with
  | .null => return some 0
  | .undefined => return none
  | .bool b => return some (if b then 1 else 0)
  | .number x => return clip x.truncate?
  | .string s => return Calendar.parse? s
  | .brokenText _ => return none
  | _ => throw .misuse

end Action

end Marshal
