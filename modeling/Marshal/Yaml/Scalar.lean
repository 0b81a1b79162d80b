import Marshal.Text.Digit
import Marshal.Text.Units
import Marshal.Yaml.Layout

namespace Marshal.Yaml

namespace Layout

def startsPlain (s : Layout) (flow : Bool) (pos : Nat) : Bool :=
  match s.char? pos with
  | none => false
  | some c =>
    if c == '-' || c == '?' || c == ':' then !s.endsIndicator flow (pos + 1)
    else
      !(s.isGap pos || isFlowMark c ||
        [ '#', '&', '*', '!', '|', '>', '\'', '"', '%', '@', Char.ofNat 96 ].contains c)

def plainEndWith (s : Layout) (flow : Bool) (indent : Nat) : (fuel pos stop : Nat) → Nat
  | 0, _, stop => stop
  | fuel + 1, pos, stop =>
    match s.char? pos with
    | none => stop
    | some c =>
      if c == ':' then
        if s.endsIndicator flow (pos + 1) then stop
        else plainEndWith s flow indent fuel (pos + 1) (pos + 1)
      else if isBlank c || c == '\n' then
        if s.isAt (pos + 1) '#' || (flow && (s.char? (pos + 1)).any isFlowMark) then stop
        else if c == '\n' then
          match s.nextLine? indent (pos + 1) with
          | none => stop
          | some next => plainEndWith s flow indent fuel (max (pos + 1) (next - 1)) stop
        else plainEndWith s flow indent fuel (pos + 1) stop
      else if flow && isFlowMark c then stop
      else plainEndWith s flow indent fuel (pos + 1) (pos + 1)

/-- The end of a text without quotes: before a colon with a gap after it, a comment, a line that is
not indented enough, or between brackets a flow mark. Blanks before the end are left out. -/
def plainEnd (s : Layout) (flow : Bool) (indent pos : Nat) : Nat :=
  s.plainEndWith flow indent (s.size + 1 - pos) pos pos

def quotedEndWith (s : Layout) (indent : Nat) (quote : Char) : (fuel pos : Nat) → Option Nat
  | 0, _ => none
  | fuel + 1, pos =>
    match s.char? pos with
    | none => none
    | some c =>
      if c == quote then
        if quote == '\'' && s.isAt (pos + 1) quote then quotedEndWith s indent quote fuel (pos + 2)
        else some (pos + 1)
      else if c == '\\' && quote == '"' && !s.isAt (pos + 1) '\n' then
        quotedEndWith s indent quote fuel (pos + 2)
      else if c == '\n' then do quotedEndWith s indent quote fuel (← s.nextLine? indent (pos + 1))
      else quotedEndWith s indent quote fuel (pos + 1)

/-- The position after the quote that closes the one at `pos`. -/
def quotedEnd? (s : Layout) (indent pos : Nat) : Option Nat := do
  s.quotedEndWith indent (← s.char? pos) (s.size + 1 - pos) (pos + 1)

end Layout

namespace Scalar

open Layout

def splitLines (cs : List Char) : List (List Char) :=
  cs.foldr (fun c lines =>
    if c == '\n' then [] :: lines
    else
      match lines with
      | [] => [[c]]
      | line :: rest => (c :: line) :: rest) [[]]

def trimStart (cs : List Char) : List Char := cs.dropWhile isBlank

def trimEnd (cs : List Char) : List Char := (trimStart cs.reverse).reverse

def foldFrom (gap : Char) : List (List Char) → List Char
  | [] => []
  | [last] => gap :: trimStart last
  | line :: rest =>
    let line := trimEnd (trimStart line)
    if line.isEmpty then if gap == '\n' then '\n' :: foldFrom '\n' rest else foldFrom '\n' rest
    else gap :: line ++ foldFrom ' ' rest

/-- Joins lines into one: a single line end is a space, and of several all but one are kept. -/
def fold (cs : List Char) : List Char :=
  match splitLines cs with
  | [] => []
  | [only] => only
  | first :: rest => trimEnd first ++ foldFrom ' ' rest

/-- Inside single quotes a quote is written twice. -/
def singleQuote : List Char → List Char
  | '\'' :: '\'' :: rest => '\'' :: singleQuote rest
  | c :: rest => c :: singleQuote rest
  | [] => []

def simpleEscapes : List (Char × Nat) :=
  [('0', 0), ('a', 7), ('b', 8), ('t', 9), ('\t', 9), ('n', 10), ('v', 11), ('f', 12), ('r', 13),
    ('e', 27), (' ', 32), ('"', 34), ('/', 47), ('\\', 92), ('N', 0x85), ('_', 0xa0), ('L', 0x2028),
    ('P', 0x2029)]

/-- The units of the code point that a number of digits gives. -/
def codeUnits? (cs : List Char) : Option (List UInt16) := do
  let n ← Text.natInBase? 16 cs
  if n < 0x10000 then some [UInt16.ofNat n]
  else if n < 0x110000 then some (Text.unitsOfChar (Char.ofNat n))
  else none

/-- How many hexadecimal digits follow the letter of an escape. -/
def escapeWidth? (c : Char) : Option Nat :=
  if c == 'x' then some 2 else if c == 'u' then some 4 else if c == 'U' then some 8 else none

/-- The text between double quotes in 16-bit units: line ends are folded, blanks before them are
left out, and escapes stand for characters. -/
def doubleUnits? : (fuel : Nat) → List Char → Option (List UInt16)
  | 0, _ => some []
  | _, [] => some []
  | fuel + 1, '\n' :: rest =>
    let isSpace (c : Char) : Bool := isBlank c || c == '\n'
    let more := ((rest.takeWhile isSpace).filter (· == '\n')).map fun _ => (10 : UInt16)
    (doubleUnits? fuel (rest.dropWhile isSpace)).map ((if more.isEmpty then [32] else more) ++ ·)
  | _, ['\\'] => none
  | fuel + 1, '\\' :: '\n' :: rest => doubleUnits? fuel (trimStart rest)
  | fuel + 1, '\\' :: c :: rest =>
    match simpleEscapes.lookup c with
    | some n => (doubleUnits? fuel rest).map (UInt16.ofNat n :: ·)
    | none => do
      let count ← escapeWidth? c
      if rest.length < count then none
      else
        let units ← codeUnits? (rest.take count)
        (doubleUnits? fuel (rest.drop count)).map (units ++ ·)
  | fuel + 1, c :: rest =>
    if isBlank c then
      let run := c :: rest.takeWhile isBlank
      let rest := rest.dropWhile isBlank
      if rest.head? == some '\n' then doubleUnits? fuel rest
      else (doubleUnits? fuel rest).map (run.flatMap Text.unitsOfChar ++ ·)
    else (doubleUnits? fuel rest).map (Text.unitsOfChar c ++ ·)

/-- What a quoted text from its opening to its closing quote says. -/
def quoted? (source : List Char) : Option (List Char) :=
  match source with
  | '\'' :: rest => some (singleQuote (fold rest.dropLast))
  | '"' :: rest => (doubleUnits? (rest.length + 1) rest.dropLast).map Text.charsOfUnits
  | _ => none

/-- What happens to the line ends at the end of a block text. -/
inductive Chomp where
  | clip | strip | keep
deriving DecidableEq

structure Header where
  folded : Bool
  chomp : Chomp := .clip
  /-- How much deeper than its surroundings the text stands, if given. -/
  indent : Option Nat := none

def readHeader : List Char → Header → Option Header
  | [], h => some h
  | c :: rest, h =>
    if c == '+' || c == '-' then
      if h.chomp == .clip then
        readHeader rest { h with chomp := if c == '+' then .keep else .strip }
      else none
    else if '1' ≤ c && c ≤ '9' then
      if h.indent.isNone then readHeader rest { h with indent := some (c.toNat - 48) } else none
    else none

/-- A line as the number of spaces it starts with and what follows them. -/
abbrev Row := Nat × List Char

def rowOf (line : List Char) : Row :=
  ((line.takeWhile (· == ' ')).length, line.dropWhile (· == ' '))

def spaces (n : Nat) : List Char := List.replicate n ' '

/-- Joins the rows of a block text whose own indentation is `trim`. `gap` is what the line end
before the row has come to so far, and `deep` says whether the last row with content was indented
further. -/
def joinRows (folded : Bool) (trim : Nat) :
    (gap : List Char) → (deep : Bool) → List Row → List Char
  | _, _, [] => []
  | gap, deep, (indent, content) :: rest =>
    let line := spaces (indent - trim) ++ content
    if !folded then gap ++ line ++ joinRows folded trim ['\n'] deep rest
    else if trim < indent || content.head? == some '\t' then
      let gap :=
        if gap == [' '] then ['\n'] else if !deep && gap == ['\n'] then ['\n', '\n'] else gap
      gap ++ line ++ joinRows folded trim ['\n'] true rest
    else if content.isEmpty then
      if gap == ['\n'] then '\n' :: joinRows folded trim gap deep rest
      else joinRows folded trim ['\n'] deep rest
    else gap ++ content ++ joinRows folded trim [' '] false rest

/-- What a block text says. Rows after the last one with content, and not indented further, only
count as line ends. -/
def block? (h : Header) (surrounding : Nat) (atRoot : Bool) (rows : List Row) :
    Option (List Char) :=
  let blank (r : Row) : Bool := r.2.isEmpty
  let trailing := (rows.reverse.takeWhile blank).length
  let content := rows.length - trailing
  if content = 0 then
    some (if h.chomp == .keep && !rows.isEmpty then List.replicate (max 1 (rows.length - 1)) '\n'
      else [])
  else
    let leading := rows.takeWhile blank
    let first := ((rows[leading.length]?).map Prod.fst).getD 0
    let least := surrounding + h.indent.getD 0
    let deepest := if h.indent.isSome then least else leading.foldl (fun n r => max n r.1) least
    let trim := if h.indent.isSome then least else first
    if first < deepest || (trim = 0 && !atRoot) then none
    else
      let kept := (((rows.drop content).reverse.dropWhile fun r => r.1 ≤ trim).length) + content
      let body := (rows.take kept).drop leading.length
      if body.any fun r => !r.2.isEmpty && r.1 < trim then none
      else
        let start := leading.flatMap fun r => spaces (r.1 - trim) ++ ['\n']
        let text := start ++ joinRows h.folded trim [] false body
        match h.chomp with
        | .strip => some text
        | .clip => some (text ++ ['\n'])
        | .keep =>
          let text := text ++ (rows.drop kept).flatMap fun r => '\n' :: spaces (r.1 - trim)
          some (if text.getLast? == some '\n' then text else text ++ ['\n'])

/-- The rows of a block text from a line start on: blank lines, and lines indented by `indent`.
Gives the position after them. -/
def rowsWith (s : Layout) (indent : Nat) : (fuel pos : Nat) → Nat
  | 0, pos => pos
  | fuel + 1, pos =>
    if s.size ≤ pos then s.size
    else
      match s.nextLine? indent pos with
      | none => pos
      | some _ => rowsWith s indent fuel (s.lineEnd pos + 1)

/-- Reads a block text whose header is at `pos`, below a collection at the given column. Gives what
it says and where it ends. -/
def readBlock? (s : Layout) (column : Option Nat) (pos : Nat) : Option (List Char × Nat) := do
  let stop := s.skipWhile (fun c => !isBlank c && c != '\n' && c != '#') (pos + 1)
  let header ← readHeader (s.slice (pos + 1) stop) { folded := s.isAt pos '>' }
  if !s.isLineDone stop then none
  else
    let start := min (s.lineEnd stop + 1) s.size
    let least := match column with
      | some n => n + 1
      | none => 0
    -- the first line that is not blank sets the indentation
    let content := s.skipWhile (fun c => c == ' ' || c == '\n') start
    let lineStart := s.lineStart content
    let found := content - lineStart
    let needed := match header.indent with
      | none => found
      | some k => k - 1 + max least 1
    let last :=
      if found < least then lineStart
      else if found < needed then lineStart
      else rowsWith s needed (s.size + 1) start
    let last := if s.size ≤ content then s.size else last
    let rows := if last ≤ start then [] else (splitLines (s.slice start last)).map rowOf
    let text ← block? header (column.getD 0) column.isNone rows
    return (text, last)

end Scalar

end Marshal.Yaml
