namespace Marshal.Yaml

/-- The characters of a document by position, line ends being single line feeds. -/
structure Layout where
  chars : Array Char

namespace Layout

/-- A byte order mark at the start is left out, and so is a carriage return before a line feed. -/
def ofString (s : String) : Layout :=
  let rec plain : List Char → List Char
    | '\r' :: '\n' :: rest => '\n' :: plain rest
    | c :: rest => c :: plain rest
    | [] => []
  let cs := s.toList
  ⟨(plain (if cs.head? == some (Char.ofNat 0xfeff) then cs.tail else cs)).toArray⟩

def size (s : Layout) : Nat := s.chars.size

def char? (s : Layout) (pos : Nat) : Option Char := s.chars[pos]?

def isAt (s : Layout) (pos : Nat) (c : Char) : Bool := s.char? pos == some c

def isBlank (c : Char) : Bool := c == ' ' || c == '\t'

/-- Brackets and commas, which end a plain text between brackets. -/
def isFlowMark (c : Char) : Bool := c == ',' || c == '[' || c == ']' || c == '\x7b' || c == '\x7d'

/-- A blank, the end of a line or the end of the document. -/
def isGap (s : Layout) (pos : Nat) : Bool :=
  match s.char? pos with
  | none => true
  | some c => isBlank c || c == '\n' || c == '\r'

/-- An indicator counts as such before a gap, and between brackets also before a flow mark. -/
def endsIndicator (s : Layout) (flow : Bool) (pos : Nat) : Bool :=
  s.isGap pos || (flow && (s.char? pos).any isFlowMark)

def slice (s : Layout) (start stop : Nat) : List Char := (s.chars.extract start stop).toList

/-- The first position from `pos` on at which the test fails. -/
def skipWhile (s : Layout) (test : Char → Bool) (pos : Nat) : Nat :=
  pos + ((s.slice pos s.size).takeWhile test).length

def skipBlanks (s : Layout) (pos : Nat) : Nat := s.skipWhile isBlank pos

def skipSpaces (s : Layout) (pos : Nat) : Nat := s.skipWhile (· == ' ') pos

def lineEnd (s : Layout) (pos : Nat) : Nat := s.skipWhile (· != '\n') pos

def lineStart (s : Layout) : Nat → Nat
  | 0 => 0
  | pos + 1 => if s.isAt pos '\n' then pos + 1 else lineStart s pos

def column (s : Layout) (pos : Nat) : Nat := pos - s.lineStart pos

/-- Whether a line of three equal marks, which ends a document or starts one, is at a position. -/
def isMarker (s : Layout) (mark : Char) (pos : Nat) : Bool :=
  s.isAt pos mark && s.isAt (pos + 1) mark && s.isAt (pos + 2) mark && s.isGap (pos + 3)

def isBoundary (s : Layout) (pos : Nat) : Bool := s.isMarker '-' pos || s.isMarker '.' pos

/-- Whether a comment starts here: after a gap or at the start. -/
def isComment (s : Layout) (pos : Nat) : Bool :=
  s.isAt pos '#' && (pos == 0 || s.isGap (pos - 1))

/-- A stretch of blanks, comments and line ends. -/
structure Gap where
  /-- Where it ends. -/
  pos : Nat
  newline : Bool
  /-- Whether a tab is among the blanks that end it. -/
  tab : Bool

def gapWith (s : Layout) : (fuel : Nat) → (newline : Bool) → (pos : Nat) → Gap
  | 0, newline, pos => ⟨pos, newline, false⟩
  | fuel + 1, newline, pos =>
    let stop := s.skipBlanks pos
    if s.isAt stop '\n' then gapWith s fuel true (stop + 1)
    else if s.isComment stop then gapWith s fuel newline (s.lineEnd stop)
    else ⟨stop, newline, (s.slice pos stop).contains '\t'⟩

/-- The gap from a position on. The start of a line counts as a line end. -/
def gap (s : Layout) (pos : Nat) : Gap :=
  s.gapWith (2 * (s.size + 1 - pos) + 1) (pos == 0 || s.isAt (pos - 1) '\n') pos

/-- The indentation at the end of a gap, which is that of its line; nothing where the document
ends. -/
def indent? (s : Layout) (pos : Nat) : Option Nat :=
  if s.size ≤ pos then none
  else
    let start := s.lineStart pos
    if pos == start && s.isBoundary pos then none else some (s.skipSpaces start - start)

/-- Whether nothing but blanks and a comment follows on the line. -/
def isLineDone (s : Layout) (pos : Nat) : Bool :=
  let stop := s.skipBlanks pos
  s.size ≤ stop || s.isAt stop '\n' || s.isComment stop

/-- Where a text over several lines goes on after a line end: past the spaces of the next line,
which is empty or indented enough. `indent` counts the spaces that are needed; without need of any,
a line that bounds the document ends the text. -/
def nextLine? (s : Layout) (indent : Nat) (pos : Nat) : Option Nat :=
  if indent = 0 then if s.isBoundary pos then none else some pos
  else
    let stop := s.skipSpaces pos
    if s.isAt stop '\n' || indent ≤ stop - pos then some stop else none

end Layout

end Marshal.Yaml
