import Marshal.Json
import Marshal.Text.Digit

namespace Marshal.Json

def isBlank (c : Char) : Bool := c = ' ' || c = '\t' || c = '\n' || c = '\r'

def skipBlank (cs : List Char) : List Char := cs.dropWhile isBlank

/-- What follows a word, if the text starts with it. -/
def word? (word : List Char) (cs : List Char) : Option (List Char) :=
  if word.isPrefixOf cs then some (cs.drop word.length) else none

def hexUnit? (cs : List Char) : Option (UInt16 × List Char) :=
  let ds := cs.take 4
  if ds.length < 4 then none
  else (Text.natInBase? 16 ds).map fun n => (UInt16.ofNat n, cs.drop 4)

/-- The rest of a quoted text after its first quote, in 16-bit units. -/
def units? : (fuel : Nat) → List Char → Option (List UInt16 × List Char)
  | 0, _ => none
  | _, [] => none
  | fuel + 1, c :: rest =>
    if c = '"' then some ([], rest)
    else if c.toNat < 0x20 then none
    else if c = '\\' then
      let one (n : Nat) (rest : List Char) : Option (List UInt16 × List Char) :=
        (units? fuel rest).map fun (us, rest) => (UInt16.ofNat n :: us, rest)
      match rest with
      | 'u' :: rest => do
        let (u, rest) ← hexUnit? rest
        let (us, rest) ← units? fuel rest
        return (u :: us, rest)
      | '"' :: rest => one 34 rest
      | '\\' :: rest => one 92 rest
      | '/' :: rest => one 47 rest
      | 'b' :: rest => one 8 rest
      | 'f' :: rest => one 12 rest
      | 'n' :: rest => one 10 rest
      | 'r' :: rest => one 13 rest
      | 't' :: rest => one 9 rest
      | _ => none
    else (units? fuel rest).map fun (us, rest) => (Text.unitsOfChar c ++ us, rest)

def ofUnits (units : List UInt16) : Json :=
  match Text.charsOfUnits? units with
  | some cs => string (String.ofList cs)
  | none => brokenText units

def decimalDigits (cs : List Char) : List Char × List Char :=
  (cs.takeWhile Char.isDigit, cs.dropWhile Char.isDigit)

/-- Digits after a decimal point, of which there is at least one. -/
def fraction? : List Char → Option (List Char × List Char)
  | '.' :: rest =>
    let (ds, rest) := decimalDigits rest
    if ds.isEmpty then none else some (ds, rest)
  | rest => some ([], rest)

def exponent? (cs : List Char) : Option (Int × List Char) :=
  match cs with
  | e :: rest =>
    if e = 'e' ∨ e = 'E' then
      let (negative, rest) := Text.spanSign rest
      let (ds, rest) := decimalDigits rest
      if ds.isEmpty then none
      else
        let n := Int.ofNat (Text.natOfDigits ds)
        some (if negative then -n else n, rest)
    else some (0, cs)
  | [] => some (0, [])

/-- A number without its sign: no leading zeros, and digits on both sides of a point. -/
def magnitude? (negative : Bool) (cs : List Char) : Option (Json × List Char) := do
  let (whole, rest) := decimalDigits cs
  if whole.isEmpty then none
  else if whole.length > 1 ∧ whole.head? = some '0' then none
  else
    let (fraction, rest) ← fraction? rest
    let (exponent, rest) ← exponent? rest
    let n := Text.natOfDigits (whole ++ fraction)
    return (number (Number.ofDecimal negative n (exponent - Int.ofNat fraction.length)), rest)

mutual

/-- A document at the start of a text, after blanks. Every call moves on in the text, so the fuel
bounds the calls. -/
def value? : (fuel : Nat) → List Char → Option (Json × List Char)
  | 0, _ => none
  | fuel + 1, cs =>
    match skipBlank cs with
    | [] => none
    | c :: rest =>
      if c = '"' then (units? (rest.length + 1) rest).map fun (us, rest) => (ofUnits us, rest)
      else if c = '[' then
        match skipBlank rest with
        | ']' :: rest => some (array [], rest)
        | rest => (items? fuel rest).map fun (items, rest) => (array items, rest)
      else if c = '{' then
        match skipBlank rest with
        | '}' :: rest => some (object [], rest)
        | rest => (members? fuel rest).map fun (members, rest) => (object members, rest)
      else if c = '-' then magnitude? true rest
      else if c.isDigit then magnitude? false (c :: rest)
      else if c = 't' then (word? "true".toList (c :: rest)).map (bool true, ·)
      else if c = 'f' then (word? "false".toList (c :: rest)).map (bool false, ·)
      else if c = 'n' then (word? "null".toList (c :: rest)).map (null, ·)
      else none

def items? : (fuel : Nat) → List Char → Option (List Json × List Char)
  | 0, _ => none
  | fuel + 1, cs => do
    let (item, rest) ← value? fuel cs
    match skipBlank rest with
    | ',' :: rest =>
      let (items, rest) ← items? fuel rest
      return (item :: items, rest)
    | ']' :: rest => return ([item], rest)
    | _ => none

def members? : (fuel : Nat) → List Char → Option (List (String × Json) × List Char)
  | 0, _ => none
  | fuel + 1, cs => do
    match skipBlank cs with
    | '"' :: rest =>
      let (us, rest) ← units? (rest.length + 1) rest
      let name := String.ofList (Text.charsOfUnits us)
      match skipBlank rest with
      | ':' :: rest =>
        let (member, rest) ← value? fuel rest
        match skipBlank rest with
        | ',' :: rest =>
          let (members, rest) ← members? fuel rest
          return ((name, member) :: members, rest)
        | '}' :: rest => return ([(name, member)], rest)
        | _ => none
      | _ => none
    | _ => none

end

def parse? (cs : List Char) : Option Json :=
  match value? (2 * cs.length + 2) cs with
  | some (j, rest) => if (skipBlank rest).isEmpty then some j else none
  | none => none

end Marshal.Json
