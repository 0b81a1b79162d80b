import Marshal.Number.Decimal
import Marshal.Text.Units

namespace Marshal

inductive Json where
  | null
  | bool (b : Bool)
  | number (x : Number)
  | string (s : String)
  /-- A text in 16-bit units in which a surrogate stands alone. -/
  | brokenText (units : List UInt16)
  | array (items : List Json)
  | object (members : List (String × Json))

namespace Json

def hexDigit (n : Nat) : Char := if n < 10 then Char.ofNat (48 + n) else Char.ofNat (87 + n)

def hexDigits (n : Nat) : List Char :=
  [hexDigit (n / 4096 % 16), hexDigit (n / 256 % 16), hexDigit (n / 16 % 16), hexDigit (n % 16)]

/-- Quotes, backslashes and control characters are escaped, the commoner ones by a letter. -/
def escapeChar (c : Char) : List Char :=
  if c = '"' then ['\\', '"']
  else if c = '\\' then ['\\', '\\']
  else if c = '\n' then ['\\', 'n']
  else if c = '\r' then ['\\', 'r']
  else if c = '\t' then ['\\', 't']
  else if c.toNat = 8 then ['\\', 'b']
  else if c.toNat = 12 then ['\\', 'f']
  else if c.toNat < 0x20 then '\\' :: 'u' :: hexDigits c.toNat
  else [c]

def quote (cs : List Char) : List Char := '"' :: cs.flatMap escapeChar ++ ['"']

/-- Units that pair up are written as their character, the others as escapes. -/
def escapeUnits : List UInt16 → List Char
  | [] => []
  | [u] =>
    if Text.isHighSurrogate u || Text.isLowSurrogate u then '\\' :: 'u' :: hexDigits u.toNat
    else escapeChar (Char.ofNat u.toNat)
  | u :: v :: rest =>
    if Text.isHighSurrogate u && Text.isLowSurrogate v then Text.pairUp u v :: escapeUnits rest
    else if Text.isHighSurrogate u || Text.isLowSurrogate u then
      '\\' :: 'u' :: hexDigits u.toNat ++ escapeUnits (v :: rest)
    else escapeChar (Char.ofNat u.toNat) ++ escapeUnits (v :: rest)

/-- Numbers that are not finite have no form of their own. -/
def printNumber (x : Number) : List Char :=
  if x.isFinite then x.text.toList else "null".toList

mutual

/-- The text of a document, without any blanks. -/
def print : Json → List Char
  | null => "null".toList
  | bool b => if b then "true".toList else "false".toList
  | number x => printNumber x
  | string s => quote s.toList
  | brokenText units => '"' :: escapeUnits units ++ ['"']
  | array items => '[' :: printItems items ++ [']']
  | object members => '{' :: printMembers members ++ ['}']

def printItems : List Json → List Char
  | [] => []
  | [j] => print j
  | j :: rest => print j ++ ',' :: printItems rest

def printMembers : List (String × Json) → List Char
  | [] => []
  | [(name, j)] => quote name.toList ++ ':' :: print j
  | (name, j) :: rest => quote name.toList ++ ':' :: print j ++ ',' :: printMembers rest

end

def text (j : Json) : String := String.ofList (print j)

end Json

end Marshal
