import Marshal.Bytes
import Marshal.Calendar
import Marshal.Text.Utf8
import Marshal.Yaml

namespace Marshal.Yaml

/-- A node of a document. Scalars stand for their values already; an alias stands for the last node
before it that carries the anchor. -/
inductive Node where
  | alias (name : String)
  | scalar (anchor : Option String) (value : Yaml)
  /-- With a shown text, a collection of another sort. -/
  | list (anchor : Option String) (shown : Option String) (items : List Node)
  | mapping (anchor : Option String) (shown : Option String) (entries : List (Node × Node))

/-- The rules by which scalars are read: the core schema, or the wider one of version 1.1. -/
inductive Schema where
  | core | wide
deriving DecidableEq

/-- Directives that hold for a document: its schema and its tag handles. -/
structure Directives where
  schema : Schema := .core
  handles : List (String × String) := [("!!", "tag:yaml.org,2002:")]

inductive Tag where
  /-- Asks for a text or a plain collection. -/
  | nonSpecific
  | named (name : String)
deriving DecidableEq

namespace Tag

def unescapeBytes? : List Char → Option (List UInt8)
  | [] => some []
  | '%' :: a :: b :: rest => do
    return UInt8.ofNat (← Text.natInBase? 16 [a, b]) :: (← unescapeBytes? rest)
  | '%' :: _ => none
  | c :: rest => do return (String.singleton c).toUTF8.toList ++ (← unescapeBytes? rest)

/-- Puts bytes written as two digits after a percent sign back. -/
def unescape? (s : String) : Option String := do
  let bytes ← unescapeBytes? s.toList
  String.fromUTF8? ⟨bytes.toArray⟩

/-- A tag from its source. A handle has to be known, and what follows it must not be empty. -/
def ofSource? (directives : Directives) (source : String) : Option Tag :=
  match source.toList with
  | ['!'] => some nonSpecific
  | '!' :: '<' :: rest =>
    if rest.getLast? == some '>' && rest != ['!', '>'] && rest != ['!', '!', '>'] then
      some (named (String.ofList rest.dropLast))
    else none
  | cs =>
    let suffix := (cs.reverse.takeWhile (· ≠ '!')).reverse
    let handle := String.ofList (cs.take (cs.length - suffix.length))
    if suffix.isEmpty then none
    else
      match directives.handles.lookup handle with
      | some start => (unescape? (String.ofList suffix)).map fun s => named (start ++ s)
      | none => if handle == "!" then some (named source) else none

def standard (name : String) : Tag := named ("tag:yaml.org,2002:" ++ name)

end Tag

/-- How a scalar was written. -/
inductive Style where
  | plain | quoted
deriving DecidableEq

namespace Schema

def number (negative : Bool) (digits : List Char) (exponent : Int) : Yaml :=
  .number (Number.ofDecimal negative (Text.natOfDigits digits) exponent)

def inBase? (negative : Bool) (base : Nat) (digits : List Char) : Option Yaml :=
  if digits.isEmpty then none
  else (Text.natInBase? base digits).map fun n => .number (Number.ofRatio negative n 1)

def null? (cs : List Char) : Option Yaml :=
  if ["", "~", "null", "Null", "NULL"].contains (String.ofList cs) then some .null else none

def bool? (s : Schema) (cs : List Char) : Option Yaml :=
  let t := String.ofList cs
  let wideYes := ["Y", "y", "yes", "Yes", "YES", "on", "On", "ON"]
  let wideNo := ["N", "n", "no", "No", "NO", "off", "Off", "OFF"]
  if ["true", "True", "TRUE"].contains t || (s == .wide && wideYes.contains t) then
    some (.bool true)
  else if ["false", "False", "FALSE"].contains t || (s == .wide && wideNo.contains t) then
    some (.bool false)
  else none

def int? (s : Schema) (cs : List Char) : Option Yaml :=
  let (negative, ds) := Text.spanSign cs
  match s with
  | .core =>
    match cs with
    | '0' :: 'o' :: ds => inBase? false 8 ds
    | '0' :: 'x' :: ds => inBase? false 16 ds
    | _ => if !ds.isEmpty && ds.all Char.isDigit then some (number negative ds 0) else none
  | .wide =>
    let bare := ds.filter (· ≠ '_')
    let inDigits? (base : Nat) (ds : List Char) : Option Yaml :=
      if !ds.isEmpty && ds.all (· == '_') then some (.number Number.nan)
      else inBase? negative base (ds.filter (· ≠ '_'))
    match ds with
    | '0' :: 'b' :: ds => inDigits? 2 ds
    | '0' :: 'x' :: ds => inDigits? 16 ds
    | '0' :: c :: rest =>
      match inDigits? 8 (c :: rest) with
      | some v => some v
      | none =>
        if (c :: rest).all (fun c => c.isDigit || c == '_') then some (number negative bare 0)
        else none
    | c :: rest =>
      if c.isDigit && rest.all (fun c => c.isDigit || c == '_') then some (number negative bare 0)
      else none
    | [] => none

def float? (s : Schema) (cs : List Char) : Option Yaml :=
  let (negative, rest) := Text.spanSign cs
  let word := String.ofList rest
  if [".inf", ".Inf", ".INF"].contains word then
    some (.number (if negative then Number.negInfinity else Number.infinity))
  else if [".nan", ".NaN", ".NAN"].contains (String.ofList cs) then some (.number Number.nan)
  else
    let loose (c : Char) : Bool := c.isDigit || (s == .wide && c == '_')
    let whole := if rest.head? == some '_' then [] else rest.takeWhile loose
    let afterWhole := rest.drop whole.length
    let (point, fraction, tail) := match afterWhole with
      | '.' :: more => (true, more.takeWhile loose, more.dropWhile loose)
      | more => (false, [], more)
    let digits := (whole ++ fraction).filter Char.isDigit
    let places := (fraction.filter Char.isDigit).length
    if digits.isEmpty then
      if s == .wide && point && tail.isEmpty && whole.isEmpty then some (.number Number.nan)
      else none
    else
      match tail with
      | [] => if point then some (number negative digits (-Int.ofNat places)) else none
      | e :: tail =>
        let (down, exponent) := Text.spanSign tail
        if (e == 'e' || e == 'E') && !exponent.isEmpty && exponent.all Char.isDigit then
          let n := Text.natOfDigits exponent
          let n := Int.ofNat (min n 100000)
          some (number negative digits ((if down then -n else n) - Int.ofNat places))
        else none

/-- Numbers in base sixty: parts of one or two digits after the first, joined by colons. The last
part may have a fraction. -/
def sexagesimal? (cs : List Char) : Option Yaml := do
  let (negative, rest) := Text.spanSign cs
  let whole := rest.takeWhile (· ≠ '.')
  let fraction ← match rest.dropWhile (· ≠ '.') with
    | [] => some []
    | _ :: ds =>
      if ds.all fun c => c.isDigit || c == '_' then some (ds.filter Char.isDigit) else none
  let first :: more := (String.ofList whole).splitOn ":" | none
  if more.isEmpty then none
  let value (part : String) : Option Nat :=
    let ds := part.toList.filter (· ≠ '_')
    if !ds.isEmpty && ds.all Char.isDigit && part.toList.head? != some '_' then
      some (Text.natOfDigits ds)
    else none
  let n ← value first
  let total ← more.foldlM (fun n part => do
    let m ← value part
    if part.toList.length ≤ 2 && m < 60 then some (60 * n + m) else none) n
  let scaled := total * Nat.pow 10 fraction.length + Text.natOfDigits fraction
  return .number (Number.ofRatio negative scaled (Nat.pow 10 fraction.length))

def short? (cs : List Char) : Option (Nat × List Char) :=
  match cs with
  | a :: b :: rest =>
    if a.isDigit && b.isDigit then some (10 * (a.toNat - 48) + (b.toNat - 48), rest)
    else if a.isDigit then some (a.toNat - 48, b :: rest)
    else none
  | [a] => if a.isDigit then some (a.toNat - 48, []) else none
  | [] => none

def mark? (mark : Char) : List Char → Option (List Char)
  | c :: rest => if c == mark then some rest else none
  | [] => none

def isGap (c : Char) : Bool := c == ' ' || c == '\t'

/-- What follows the letter or the gap between a day and its time. -/
def pastDay? : List Char → Option (List Char)
  | [] => none
  | c :: rest =>
    if c == 'T' || c == 't' then some rest
    else if isGap c then some (rest.dropWhile isGap)
    else none

def timestamp? (cs : List Char) : Option Yaml := do
  let (year, rest) ← Calendar.digits? 4 cs
  let (month, rest) ← short? (← mark? '-' rest)
  let (day, rest) ← short? (← mark? '-' rest)
  let midnight := 86400000 * Calendar.daysOfDate year month day
  if rest.isEmpty then some (.other (Calendar.longText midnight))
  else
    let rest ← pastDay? rest
    let (hour, rest) ← short? rest
    let (minute, rest) ← short? (← mark? ':' rest)
    let (second, rest) ← short? (← mark? ':' rest)
    let (milliseconds, rest) ← match rest with
      | '.' :: rest =>
        let ds := rest.takeWhile Char.isDigit
        if ds.isEmpty then none
        else
          let three := (ds ++ ['0', '0', '0']).take 3
          some (Text.natOfDigits three, rest.dropWhile Char.isDigit)
      | rest => some (0, rest)
    let rest := rest.dropWhile isGap
    let minutes ← match rest with
      | [] | ['Z'] => some (0 : Int)
      | c :: rest =>
        if c == '+' || c == '-' then do
          let (hours, rest) ← short? rest
          let extra ← match rest with
            | [] => some 0
            | ':' :: rest => do
              let (m, rest) ← Calendar.digits? 2 rest
              if rest.isEmpty then some m else none
            | _ => none
          let total := Int.ofNat (60 * hours + extra)
          some (if c == '-' then -total else total)
        else none
    let time := midnight + Int.ofNat (((hour * 60 + minute) * 60 + second) * 1000 + milliseconds)
    some (.other (Calendar.longText (time - minutes * 60000)))

/-- The sorts of scalar that have a form of their own, in the order in which they are tried. -/
def forms (s : Schema) : List (Tag × (List Char → Option Yaml)) :=
  let shared : List (Tag × (List Char → Option Yaml)) :=
    [(.standard "null", null?), (.standard "bool", bool? s), (.standard "int", int? s),
      (.standard "float", float? s)]
  match s with
  | .core => shared
  | .wide => shared ++ [(.standard "int", sexagesimal?), (.standard "timestamp", timestamp?)]

def binaryText (cs : List Char) : String :=
  let value (c : Char) : Option Nat :=
    if 'A' ≤ c && c ≤ 'Z' then some (c.toNat - 65)
    else if 'a' ≤ c && c ≤ 'z' then some (c.toNat - 71)
    else if c.isDigit then some (c.toNat + 4)
    else if c == '+' || c == '-' then some 62
    else if c == '/' || c == '_' then some 63
    else none
  let sextets := (cs.takeWhile (· ≠ '=')).filterMap value
  let rec bytes : List Nat → List Nat
    | a :: b :: c :: d :: rest =>
      (a * 4 + b / 16) :: (b % 16 * 16 + c / 4) :: (c % 4 * 64 + d) :: bytes rest
    | [a, b, c] => [a * 4 + b / 16, b % 16 * 16 + c / 4]
    | [a, b] => [a * 4 + b / 16]
    | _ => []
  Text.ofUtf8 (Bytes.ofList ((bytes sextets).map UInt8.ofNat))

/-- The value of a scalar. Without a tag a plain one takes the first form that fits and any other is
a text; a tag asks for its own form, and is left aside where the form does not fit. -/
def scalar? (s : Schema) (tag : Option Tag) (style : Style) (cs : List Char) : Option Yaml :=
  let asText := Yaml.text (String.ofList cs)
  match tag with
  | none =>
    match style with
    | .quoted => some asText
    | .plain => some ((s.forms.findSome? fun (_, read?) => read? cs).getD asText)
  | some .nonSpecific => some asText
  | some tag =>
    match (s.forms.filter (·.1 == tag)).findSome? fun (_, read?) => read? cs with
    | some v => some v
    | none =>
      if tag == .standard "binary" then some (.other (binaryText cs))
      else if tag == .standard "timestamp" then timestamp? cs
      else some asText

/-- The node of a list under a tag. An ordered mapping is a collection of another sort. -/
def list (tag : Option Tag) (anchor : Option String) (items : List Node) : Node :=
  .list anchor (if tag == some (.standard "omap") then some "[object Map]" else none) items

/-- Whether two keys count as one: equal scalars do. -/
def sameKey : Node → Node → Bool
  | .scalar _ a, .scalar _ b =>
    match a, b with
    | .null, .null => true
    | .bool a, .bool b => a == b
    | .number a, .number b => a.equals b
    | .text a, .text b => a == b
    | _, _ => false
  | _, _ => false

def distinctKeys (s : Schema) : List (Node × Node) → Bool
  | [] => true
  | (key, _) :: rest =>
    let merges := match key with
      | .scalar _ (.text "<<") => s == .wide
      | _ => false
    (merges || !rest.any fun (later, _) => sameKey key later) && distinctKeys s rest

/-- The node of a mapping under a tag. Keys are distinct, and the members of a set have no
values. -/
def mapping? (s : Schema) (tag : Option Tag) (anchor : Option String)
    (entries : List (Node × Node)) : Option Node :=
  if !distinctKeys s entries then none
  else if tag == some (.standard "set") then
    let plain := entries.all fun (_, v) =>
      match v with
      | .scalar _ .null => true
      | _ => false
    if plain then some (.mapping anchor (some "[object Set]") entries) else none
  else some (.mapping anchor none entries)

end Schema

end Marshal.Yaml
