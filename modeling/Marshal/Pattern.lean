import Marshal.Pattern.Property
import Marshal.Text.Identifier
import Marshal.Text.Units

namespace Marshal.Pattern

/-- Letters a flag text may hold, in the order in which they are shown. -/
def flagOrder : List Char := ['d', 'g', 'i', 'm', 's', 'u', 'v', 'y']

/-- Known flags, each at most once, and only one of the two Unicode modes. -/
def flagsValid (flags : List Char) : Bool :=
  flags.all (flagOrder.contains ·) && flags.Nodup && !(flags.contains 'u' && flags.contains 'v')

def sortFlags (flags : List Char) : List Char := flagOrder.filter (flags.contains ·)

def code (c : Char) : Nat := c.toNat

def isChar (n : Nat) (s : String) : Bool := s.toList.any fun c => c.toNat == n

def digit? (n : Nat) : Option Nat := if 48 ≤ n ∧ n ≤ 57 then some (n - 48) else none

def hex? (n : Nat) : Option Nat :=
  if 48 ≤ n ∧ n ≤ 57 then some (n - 48)
  else if 97 ≤ n ∧ n ≤ 102 then some (n - 87)
  else if 65 ≤ n ∧ n ≤ 70 then some (n - 55)
  else none

def isLetter (n : Nat) : Bool := (65 ≤ n && n ≤ 90) || (97 ≤ n && n ≤ 122)

def number (base : Nat) (ds : List Nat) : Nat := ds.foldl (fun n d => base * n + d) 0

def spanDigits (cs : List Nat) : List Nat × List Nat :=
  let ds := cs.takeWhile fun n => (digit? n).isSome
  (ds.filterMap digit?, cs.drop ds.length)

def fixedHex? (count : Nat) (cs : List Nat) : Option (Nat × List Nat) :=
  let ds := (cs.take count).filterMap hex?
  if ds.length = count then some (number 16 ds, cs.drop count) else none

/-- The code point that two surrogates write together. -/
def joined? (high low : Nat) : Option Nat :=
  if 0xd800 ≤ high ∧ high ≤ 0xdbff ∧ 0xdc00 ≤ low ∧ low ≤ 0xdfff then
    some (0x10000 + (high - 0xd800) * 1024 + (low - 0xdc00))
  else none

/-- Four hexadecimal digits, with those of a second escape where the two are surrogates of one
code point. -/
def fourDigits? (cs : List Nat) : Option (Nat × List Nat) := do
  let (high, rest) ← fixedHex? 4 cs
  let pair : Option (Nat × List Nat) :=
    match rest with
    | b :: u :: more => do
      if b != code '\\' || u != code 'u' then none
      let (low, rest) ← fixedHex? 4 more
      return (← joined? high low, rest)
    | _ => none
  return pair.getD (high, rest)

def codePoint? (cs : List Nat) : Option (Nat × List Nat) :=
  match cs with
  | c :: rest =>
    if c == code '{' then
      let ds := rest.takeWhile fun n => (hex? n).isSome
      let after := rest.drop ds.length
      let value := number 16 (ds.filterMap hex?)
      if ds.isEmpty ∨ 0x10ffff < value ∨ after.head? ≠ some (code '}') then none
      else some (value, after.drop 1)
    else fourDigits? cs
  | [] => none

/-- A code point of a name, escaped or as it stands. -/
def nameChar? : List Nat → Option (Nat × List Nat)
  | [] => none
  | [c] => if c == code '\\' then none else some (c, [])
  | c :: d :: rest =>
    if c == code '\\' then if d == code 'u' then codePoint? rest else none
    else
      match joined? c d with
      | some n => some (n, rest)
      | none => some (c, d :: rest)

/-- Goes on reading the name of a group. Its closing bracket counts also where it is escaped. -/
def groupNameFrom? (name : List Nat) : (fuel : Nat) → List Nat → Option (List Nat × List Nat)
  | 0, _ => none
  | fuel + 1, cs => do
    let (c, rest) ← nameChar? cs
    if name.isEmpty then
      if Text.startsIdentifier c then groupNameFrom? [c] fuel rest else none
    else if c == code '>' then some (name, rest)
    else if Text.continuesIdentifier c then groupNameFrom? (name ++ [c]) fuel rest
    else none

/-- The name of a group as its code points, and what follows its closing bracket. -/
def groupName? (cs : List Nat) : Option (List Nat × List Nat) :=
  groupNameFrom? [] (cs.length + 1) cs

/-- How a pattern is read: by 16-bit units with leniency, by code points, or by code points with
set notation in classes. -/
inductive Mode where
  | lenient | unicode | sets
deriving DecidableEq

def Mode.strict (m : Mode) : Bool := m != .lenient

/-- Names and number of the capturing groups, found before the pattern itself is read. -/
structure Captures where
  count : Nat := 0
  names : List (List Nat) := []

def skipClass : List Nat → List Nat
  | [] => []
  | c :: rest =>
    if c == code '\\' then
      match rest with
      | _ :: rest => skipClass rest
      | [] => []
    else if c == code ']' then rest
    else skipClass rest

theorem length_skipClass_le (cs : List Nat) : (skipClass cs).length ≤ cs.length := by
  fun_induction skipClass cs <;> simp_all <;> omega

/-- What an opening bracket adds, seen from the text after it. -/
def Captures.open (found : Captures) : List Nat → Captures
  | q :: l :: name =>
    if q != code '?' then { found with count := found.count + 1 }
    else if l == code '<' && !(name.head?.any fun n => n == code '=' || n == code '!') then
      { count := found.count + 1
        names := found.names ++ ((groupName? name).map (·.1)).toList }
    else found
  | q :: _ => if q != code '?' then { found with count := found.count + 1 } else found
  | [] => { found with count := found.count + 1 }

def captures (found : Captures) : List Nat → Captures
  | [] => found
  | c :: rest =>
    if c == code '\\' then captures found (rest.drop 1)
    else if c == code '[' then captures found (skipClass rest)
    else if c == code '(' then captures (found.open rest) rest
    else captures found rest
termination_by cs => cs.length
decreasing_by
  · simp only [List.length_cons, List.length_drop]; omega
  · have := length_skipClass_le rest; simp only [List.length_cons]; omega
  · simp
  · simp

/-- The braced name after a property escape; whether the property is one of texts, which only set
notation knows and which has no complement. -/
def property? (m : Mode) (complement : Bool) : List Nat → Option (Bool × List Nat)
  | [] => none
  | c :: rest =>
    let word := rest.takeWhile (· != code '}')
    match rest.drop word.length with
    | [] => none
    | _ :: after =>
      let name := String.ofList (word.map Char.ofNat)
      if c != code '{' then none
      else if isProperty name then some (false, after)
      else if m == .sets && !complement && stringProperties.contains name then some (true, after)
      else none

/-- What stands between two borders of a class: one character, or a set of them that may hold
longer texts as well. -/
inductive Member where
  | char (value : Nat)
  | many (strings : Bool)

def Member.strings : Member → Bool
  | .char _ => false
  | .many strings => strings

def Member.char? : Member → Option Nat
  | .char value => some value
  | .many _ => none

/-- An escape in a class. With named groups in the pattern the letter of a reference is no escape
of itself. -/
def classEscape? (m : Mode) (named : Bool) : List Nat → Option (Member × List Nat)
  | [] => none
  | c :: rest =>
    if isChar c "dDsSwW" then some (.many false, rest)
    else if isChar c "pP" && m.strict then
      (property? m (c == code 'P') rest).map fun (strings, rest) => (.many strings, rest)
    else if c == code 'b' then some (.char 8, rest)
    else if c == code '-' && m.strict then some (.char (code '-'), rest)
    else if c == code 't' then some (.char 9, rest)
    else if c == code 'n' then some (.char 10, rest)
    else if c == code 'v' then some (.char 11, rest)
    else if c == code 'f' then some (.char 12, rest)
    else if c == code 'r' then some (.char 13, rest)
    else if c == code 'x' then
      match fixedHex? 2 rest with
      | some (n, rest) => some (.char n, rest)
      | none => if m.strict then none else some (.char c, rest)
    else if c == code 'u' then
      match if m.strict then codePoint? rest else fixedHex? 4 rest with
      | some (n, rest) => some (.char n, rest)
      | none => if m.strict then none else some (.char c, rest)
    else if c == code 'c' then
      match rest with
      | l :: rest' =>
        if isLetter l || (!m.strict && ((digit? l).isSome || l == code '_')) then
          some (.char (l % 32), rest')
        else if m.strict then none else some (.char (code '\\'), c :: rest)
      | [] => if m.strict then none else some (.char (code '\\'), c :: rest)
    else if (digit? c).isSome then
      if m.strict then
        if c == code '0' && !(rest.head?.any fun n => (digit? n).isSome) then some (.char 0, rest)
        else none
      else
        let octal := ((c :: rest).take 3).takeWhile fun n => 48 ≤ n && n ≤ 55
        let octal := if number 8 (octal.filterMap digit?) > 255 then octal.take 2 else octal
        if octal.isEmpty then some (.char c, rest)
        else some (.char (number 8 (octal.filterMap digit?)), rest.drop (octal.length - 1))
    else if m.strict then
      if isChar c "^$\\.*+?()[]\x7b\x7d|/" then some (.char c, rest)
      else if m == .sets && isChar c "&-!#%,:;<=>@`~" then some (.char c, rest)
      else none
    else if c == code 'k' && named then none
    else some (.char c, rest)

def classMember? (m : Mode) (named : Bool) : List Nat → Option (Member × List Nat)
  | [] => none
  | c :: rest => if c == code '\\' then classEscape? m named rest else some (.char c, rest)

def classBody? (m : Mode) (named : Bool) : (fuel : Nat) → List Nat → Option (List Nat)
  | 0, _ => none
  | _, [] => none
  | fuel + 1, c :: rest =>
    if c == code ']' then some rest
    else
      match classMember? m named (c :: rest) with
      | none => none
      | some (low, after) =>
        match after with
        | dash :: next :: more =>
          if dash == code '-' && next != code ']' then
            match classMember? m named (next :: more) with
            | none => none
            | some (high, after) =>
              match low, high with
              | .char l, .char h => if h < l then none else classBody? m named fuel after
              | _, _ => if m.strict then none else classBody? m named fuel after
          else classBody? m named fuel after
        | _ => classBody? m named fuel after

/-- A member of a class in set notation that is no class itself. The signs of the notation stand
for themselves only when escaped, and no doubled sign stands for itself. -/
def setMember? : List Nat → Option (Member × List Nat)
  | [] => none
  | c :: rest =>
    if c == code '\\' then classEscape? .sets false rest
    else if isChar c "()[]\x7b\x7d/|-" then none
    else if isChar c "&!#$%*+,.:;<=>?@^`~" && rest.head? == some c then none
    else some (.char c, rest)

/-- Alternatives up to the closing brace: whether any of them is not a single character. -/
def alternatives? (length : Nat) (strings : Bool) : (fuel : Nat) → List Nat →
    Option (Bool × List Nat)
  | 0, _ => none
  | _, [] => none
  | fuel + 1, c :: rest =>
    if c == code '}' then some (strings || length != 1, rest)
    else if c == code '|' then alternatives? 0 (strings || length != 1) fuel rest
    else
      match setMember? (c :: rest) with
      | some (.char _, rest) => alternatives? (length + 1) strings fuel rest
      | _ => none

section SetNotation

/-! Classes in set notation nest; the reader of the class inside an opening bracket, which says
whether the class may hold texts other than single characters, is given. -/

variable (nested : List Nat → Option (Bool × List Nat))

/-- An operand: a member, alternatives in braces, or a class inside the class. -/
def operand? : List Nat → Option (Member × List Nat)
  | [] => none
  | c :: rest =>
    if c == code '[' then (nested rest).map fun (strings, rest) => (.many strings, rest)
    else if c == code '\\' && rest.head? == some (code 'q') then
      match rest.drop 1 with
      | brace :: rest =>
        if brace == code '{' then
          (alternatives? 0 false (rest.length + 1) rest).map fun (strings, rest) =>
            (.many strings, rest)
        else none
      | [] => none
    else setMember? (c :: rest)

/-- Goes on reading a union of operands and ranges; `last` is the character a range may start at. -/
def union? (last : Option Nat) (strings : Bool) : (fuel : Nat) → List Nat →
    Option (Bool × List Nat)
  | 0, _ => none
  | _, [] => none
  | fuel + 1, c :: rest =>
    if c == code ']' then some (strings, rest)
    else if c == code '-' then
      match last, operand? nested rest with
      | some low, some (.char high, rest) =>
        if high < low then none else union? none strings fuel rest
      | _, _ => none
    else
      match operand? nested (c :: rest) with
      | some (member, rest) => union? member.char? (strings || member.strings) fuel rest
      | none => none

/-- Goes on reading an intersection, where every operand has to hold texts, or a difference, where
the first one decides. -/
def operation? (meet : Bool) (strings : Bool) : (fuel : Nat) → List Nat → Option (Bool × List Nat)
  | 0, _ => none
  | _, [] => none
  | fuel + 1, c :: rest =>
    let sign := if meet then code '&' else code '-'
    if c == code ']' then some (strings, rest)
    else if c != sign || rest.head? != some sign || (meet && rest[1]? == some sign) then none
    else
      match operand? nested (rest.drop 1) with
      | some (member, rest) => operation? meet (strings && (!meet || member.strings)) fuel rest
      | none => none

end SetNotation

/-- A class in set notation after its opening bracket. The first two signs after the first operand
say what kind of class it is; the complement of one that may hold texts is refused. -/
def setClass? : (fuel : Nat) → List Nat → Option (Bool × List Nat)
  | 0, _ => none
  | fuel + 1, cs => do
    let negated := cs.head? == some (code '^')
    let cs := if negated then cs.drop 1 else cs
    if cs.head? == some (code ']') then return (false, cs.drop 1)
    let (first, rest) ← operand? (setClass? fuel) cs
    let more := rest.length + 1
    let (strings, rest) ←
      if rest.take 2 == [code '-', code '-'] then
        operation? (setClass? fuel) false first.strings more rest
      else if rest.take 2 == [code '&', code '&'] then
        operation? (setClass? fuel) true first.strings more rest
      else union? (setClass? fuel) first.char? first.strings more rest
    if negated && strings then none else some (strings, rest)

def class? (m : Mode) (named : Bool) (cs : List Nat) : Option (List Nat) :=
  if m == .sets then (setClass? (cs.length + 1) cs).map (·.2)
  else
    let members := if cs.head? == some (code '^') then cs.drop 1 else cs
    classBody? m named (members.length + 1) members

/-- The largest bound of a repetition; a larger one counts as this. -/
def largestBound : Nat := 0x7fffffff

/-- A repetition in braces: whether its bounds are in order, and what follows. -/
def braces? (cs : List Nat) : Option (Bool × List Nat) :=
  let (low, rest) := spanDigits cs
  if low.isEmpty then none
  else
    match rest with
    | c :: rest =>
      if c == code '}' then some (true, rest)
      else if c == code ',' then
        let (high, rest) := spanDigits rest
        match rest with
        | c :: rest =>
          let ordered := min (number 10 low) largestBound ≤ number 10 high
          if c == code '}' then some (high.isEmpty || ordered, rest) else none
        | [] => none
      else none
    | [] => none

/-- What an escape outside a class allows next: nothing on an error, else whether it may be
repeated, and the rest. -/
def escape? (m : Mode) (found : Captures) : List Nat → Option (Bool × List Nat)
  | [] => none
  | c :: rest =>
    if isChar c "bB" then some (false, rest)
    else if isChar c "dDsSwWfnrtv" then some (true, rest)
    else if 49 ≤ c ∧ c ≤ 57 then
      let (ds, after) := spanDigits (c :: rest)
      if m.strict then if number 10 ds ≤ found.count then some (true, after) else none
      else some (true, rest)
    else if c == code 'k' && (m.strict || !found.names.isEmpty) then
      match rest with
      | l :: name =>
        if l == code '<' then
          match groupName? name with
          | some (n, rest) => if found.names.contains n then some (true, rest) else none
          | none => none
        else none
      | [] => none
    else if !m.strict then some (true, rest)
    else if c == code '0' then
      if rest.head?.any fun n => (digit? n).isSome then none else some (true, rest)
    else if c == code 'c' then
      if rest.head?.any isLetter then some (true, rest.drop 1) else none
    else if c == code 'x' then (fixedHex? 2 rest).map fun (_, rest) => (true, rest)
    else if c == code 'u' then (codePoint? rest).map fun (_, rest) => (true, rest)
    else if isChar c "pP" then
      (property? m (c == code 'P') rest).map fun (_, rest) => (true, rest)
    else if isChar c "^$\\.*+?()[]\x7b\x7d|/" then some (true, rest)
    else none

/-- What an opening bracket starts: whether the group may be repeated, and the text inside it. -/
def opening? (m : Mode) : List Nat → Option (Bool × List Nat)
  | q :: rest =>
    if q != code '?' then some (true, q :: rest)
    else
      match rest with
      | kind :: after =>
        if kind == code ':' then some (true, after)
        else if kind == code '=' || kind == code '!' then some (!m.strict, after)
        else if kind != code '<' then none
        else if after.head?.any (isChar · "=!") then some (false, after.drop 1)
        else (groupName? after).map fun (_, inside) => (true, inside)
      | [] => none
  | [] => some (true, [])

/-- Reads a pattern from left to right. `groups` says for each open group whether it may be
repeated once closed; `repeatable` whether what was just read may be. -/
def reads (m : Mode) (found : Captures) :
    (fuel : Nat) → (groups : List Bool) → (repeatable : Bool) → List Nat → Bool
  | 0, _, _, _ => false
  | _, groups, _, [] => groups.isEmpty
  | fuel + 1, groups, repeatable, c :: rest =>
    let lazily (cs : List Nat) := if cs.head? == some (code '?') then cs.drop 1 else cs
    if c == code '(' then
      match opening? m rest with
      | some (again, inside) => reads m found fuel (again :: groups) false inside
      | none => false
    else if c == code ')' then
      match groups with
      | again :: groups => reads m found fuel groups again rest
      | [] => false
    else if c == code '|' then reads m found fuel groups false rest
    else if c == code '^' || c == code '$' then reads m found fuel groups false rest
    else if isChar c "*+?" then repeatable && reads m found fuel groups false (lazily rest)
    else if c == code '{' then
      match braces? rest with
      | some (ordered, rest) =>
        repeatable && ordered && reads m found fuel groups false (lazily rest)
      | none => !m.strict && reads m found fuel groups true rest
    else if c == code '}' || c == code ']' then !m.strict && reads m found fuel groups true rest
    else if c == code '[' then
      match class? m (!found.names.isEmpty) rest with
      | some rest => reads m found fuel groups true rest
      | none => false
    else if c == code '\\' then
      match escape? m found rest with
      | some (again, rest) => reads m found fuel groups again rest
      | none => false
    else reads m found fuel groups true rest

def sourceValid (source : String) (flags : List Char) : Bool :=
  let m : Mode :=
    if flags.contains 'v' then .sets else if flags.contains 'u' then .unicode else .lenient
  let cs :=
    if m.strict then source.toList.map Char.toNat else (Text.units source).map UInt16.toNat
  let found := captures {} cs
  found.names.Nodup && reads m found (cs.length + 1) [] false cs

/-- A pattern as it is shown: a slash outside a class and every line end are escaped. -/
def shownFrom (inClass escaped : Bool) : List Char → List Char
  | [] => []
  | c :: rest =>
    if c = '\n' then (if escaped then ['n'] else ['\\', 'n']) ++ shownFrom inClass false rest
    else if c = '\r' then (if escaped then ['r'] else ['\\', 'r']) ++ shownFrom inClass false rest
    else if c.toNat = 0x2028 then
      (if escaped then [] else ['\\']) ++ "u2028".toList ++ shownFrom inClass false rest
    else if c.toNat = 0x2029 then
      (if escaped then [] else ['\\']) ++ "u2029".toList ++ shownFrom inClass false rest
    else if escaped then c :: shownFrom inClass false rest
    else if c = '\\' then c :: shownFrom inClass true rest
    else if c = '/' ∧ ¬ inClass then '\\' :: c :: shownFrom inClass false rest
    else if c = '[' then c :: shownFrom true false rest
    else if c = ']' then c :: shownFrom false false rest
    else c :: shownFrom inClass false rest

/-- The shown form; an empty pattern is shown as an empty group. -/
def shown (source : String) : String :=
  if source.isEmpty then "(?:)" else String.ofList (shownFrom false false source.toList)

/-- Source and flags as shown, if both are valid. -/
def build? (source flags : String) : Option (String × String) :=
  if flagsValid flags.toList && sourceValid source flags.toList then
    some (shown source, String.ofList (sortFlags flags.toList))
  else none

end Marshal.Pattern
