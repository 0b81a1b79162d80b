import Marshal.Yaml.Scalar
import Marshal.Yaml.Schema

namespace Marshal.Yaml

/-- What is said of a node before it: its anchor and its tag. -/
structure Props where
  anchor : Option String := none
  tag : Option Tag := none

namespace Props

def isEmpty (p : Props) : Bool := p.anchor.isNone && p.tag.isNone

def tagChars : String :=
  "0123456789ABCDEFGHIJKLMNOPQRSTUVWXYZabcdefghijklmnopqrstuvwxyz-#;/?:@&=+$_.!~*'()%"

end Props

/-- The block collection around a node, and what it allows there. -/
structure Place where
  /-- The column of the collection; nothing around the whole document. -/
  column : Option Nat
  /-- Whether a collection may start on the same line. -/
  compact : Bool
  /-- Whether a list may stand at the column itself. -/
  level : Bool

namespace Place

def document : Place := ⟨none, false, false⟩

/-- The indentation that a node in this place needs. -/
def least (p : Place) : Nat :=
  match p.column with
  | none => 0
  | some n => n + 1

end Place

namespace Layout

variable (d : Directives) (s : Layout)

def name? (pos : Nat) : Option (String × Nat) :=
  let stop := s.skipWhile
    (fun c => !(isBlank c || isFlowMark c || c == '\n' || c == '\r')) (pos + 1)
  if stop ≤ pos + 1 then none else some (String.ofList (s.slice (pos + 1) stop), stop)

def tagEnd (pos : Nat) : Nat :=
  if s.isAt (pos + 1) '<' then
    let stop := s.skipWhile (fun c => !isBlank c && c != '\n' && c != '>') (pos + 1)
    if s.isAt stop '>' then stop + 1 else stop
  else s.skipWhile (fun c => Props.tagChars.toList.contains c) (pos + 1)

def isProperty (pos : Nat) : Bool := s.isAt pos '&' || s.isAt pos '!'

/-- Reads one more property, which a gap has to follow. -/
def property? (flow : Bool) (p : Props) (pos : Nat) : Option (Props × Nat) := do
  let (p, stop) ←
    if s.isAt pos '&' then
      if p.anchor.isSome then none
      else do
        let (name, stop) ← s.name? pos
        pure ({ p with anchor := some name }, stop)
    else if p.tag.isSome then none
    else do
      let stop := s.tagEnd pos
      let tag ← Tag.ofSource? d (String.ofList (s.slice pos stop))
      pure ({ p with tag := some tag }, stop)
  if s.endsIndicator flow stop then some (p, stop) else none

def scalarNode? (p : Props) (style : Style) (cs : List Char) : Option Node :=
  (d.schema.scalar? p.tag style cs).map (.scalar p.anchor)

def emptyNode? (p : Props) : Option Node := scalarNode? d p .plain []

def mappingNode? (p : Props) (entries : List (Node × Node)) : Option Node :=
  d.schema.mapping? p.tag p.anchor entries

def isQuote (pos : Nat) : Bool := s.isAt pos '"' || s.isAt pos '\''

def opensFlow (pos : Nat) : Bool := s.isAt pos '[' || s.isAt pos '\x7b'

def closesFlow (pos : Nat) : Bool := s.isAt pos ']' || s.isAt pos '\x7d'

/-- A scalar or an alias, of which `indent` is the indentation of further lines. -/
def leaf? (flow : Bool) (indent : Nat) (p : Props) (pos : Nat) : Option (Node × Nat) := do
  if s.isAt pos '*' then
    let (name, stop) ← s.name? pos
    if p.isEmpty then some (.alias name, stop) else none
  else if s.isQuote pos then
    let stop ← s.quotedEnd? indent pos
    let content ← Scalar.quoted? (s.slice pos stop)
    some (← scalarNode? d p .quoted content, stop)
  else if s.startsPlain flow pos then
    let stop := s.plainEnd flow indent pos
    some (← scalarNode? d p .plain (Scalar.fold (s.slice pos stop)), stop)
  else none

/-- The gap between the parts of a collection in brackets. Lines inside it are indented enough, save
that the last bracket may stand at the column around it. -/
def flowGap? (least : Nat) (outer : Bool) (pos : Nat) : Option Nat := do
  let g := s.gap pos
  if !g.newline then some g.pos
  else
    let indent ← s.indent? g.pos
    if least ≤ indent || (outer && indent + 1 == least && s.closesFlow g.pos) then some g.pos
    else none

/-- Whether the colon between a key and its value is here. After a key that ends with a quote or a
bracket, nothing needs to separate it from the value. -/
def isColon (closed : Bool) (pos : Nat) : Bool :=
  s.isAt pos ':' && (closed || s.endsIndicator true (pos + 1))

def hasNewline (start stop : Nat) : Bool := (s.slice start stop).contains '\n'

def keyLimit : Nat := 1024

mutual

/-- A node inside brackets. Also tells whether it ends with a quote or a bracket. -/
def flowNode? (least : Nat) : (fuel : Nat) → Props → (pos : Nat) → Option (Node × Nat × Bool)
  | 0, _, _ => none
  | fuel + 1, p, pos =>
    if s.isProperty pos then do
      let (p, stop) ← s.property? d true p pos
      let next ← s.flowGap? least false stop
      if s.isAt next ',' || s.closesFlow next || s.isColon false next then
        some (← emptyNode? d p, stop, false)
      else flowNode? least fuel p next
    else if s.opensFlow pos then do
      let (node, stop) ← flow? least false fuel p pos
      some (node, stop, true)
    else do
      let (node, stop) ← s.leaf? d true least p pos
      some (node, stop, s.isQuote pos)
termination_by structural fuel _ _ => fuel

def flow? (least : Nat) (outer : Bool) : (fuel : Nat) → Props → (pos : Nat) → Option (Node × Nat)
  | 0, _, _ => none
  | fuel + 1, p, pos => do
    if s.isAt pos '[' then
      let (items, stop) ← flowItems? least outer fuel (pos + 1)
      some (Schema.list p.tag p.anchor items, stop)
    else
      let (entries, stop) ← flowEntries? least outer fuel (pos + 1)
      some (← mappingNode? d p entries, stop)
termination_by structural fuel _ _ => fuel

/-- The value after a colon, which may be missing. -/
def flowValue? (least : Nat) : (fuel pos : Nat) → Option (Node × Nat)
  | 0, _ => none
  | fuel + 1, pos => do
    let next ← s.flowGap? least true pos
    if s.isAt next ',' || s.closesFlow next then some (← emptyNode? d {}, pos)
    else
      let (node, stop, _) ← flowNode? least fuel {} next
      some (node, stop)
termination_by structural fuel _ => fuel

/-- A key inside brackets and what follows it: the key, where it ends, and the position of its colon
if it has one. -/
def flowKey? (least : Nat) : (fuel pos : Nat) → Option (Node × Nat × Option Nat)
  | 0, _ => none
  | fuel + 1, pos => do
    let explicit := s.isAt pos '?' && s.endsIndicator true (pos + 1)
    let start ← if explicit then s.flowGap? least true (pos + 1) else some pos
    let (key, stop, closed) ←
      if s.isColon false start || (explicit && (s.isAt start ',' || s.closesFlow start)) then
        (emptyNode? d {}).map fun node => (node, start, false)
      else flowNode? least fuel {} start
    let next ← s.flowGap? least true stop
    some (key, stop, if s.isColon closed next then some next else none)
termination_by structural fuel _ => fuel

/-- The rest of a list in brackets. A key with a value is a mapping of its own. -/
def flowItems? (least : Nat) (outer : Bool) : (fuel pos : Nat) → Option (List Node × Nat)
  | 0, _ => none
  | fuel + 1, pos => do
    let start ← s.flowGap? least outer pos
    if s.isAt start ']' then return ([], start + 1)
    let explicit := s.isAt start '?' && s.endsIndicator true (start + 1)
    let (key, stop, colon) ← flowKey? least fuel start
    let (item, stop) ←
      match colon with
      | some colon =>
        if !explicit && (s.hasNewline start colon || keyLimit < colon - start) then none
        else do
          let (value, stop) ← flowValue? least fuel (colon + 1)
          some (← mappingNode? d {} [(key, value)], stop)
      | none =>
        if explicit then do some (← mappingNode? d {} [(key, ← emptyNode? d {})], stop)
        else some (key, stop)
    let next ← s.flowGap? least outer stop
    if s.isAt next ',' then
      let (items, stop) ← flowItems? least outer fuel (next + 1)
      return (item :: items, stop)
    else if s.isAt next ']' then return ([item], next + 1)
    else none
termination_by structural fuel _ => fuel

def flowEntries? (least : Nat) (outer : Bool) :
    (fuel pos : Nat) → Option (List (Node × Node) × Nat)
  | 0, _ => none
  | fuel + 1, pos => do
    let start ← s.flowGap? least outer pos
    if s.isAt start '\x7d' then return ([], start + 1)
    let (key, stop, colon) ← flowKey? least fuel start
    let (value, stop) ←
      match colon with
      | some colon => flowValue? least fuel (colon + 1)
      | none => (emptyNode? d {}).map (·, stop)
    let next ← s.flowGap? least outer stop
    if s.isAt next ',' then
      let (entries, stop) ← flowEntries? least outer fuel (next + 1)
      return ((key, value) :: entries, stop)
    else if s.isAt next '\x7d' then return ([(key, value)], next + 1)
    else none
termination_by structural fuel _ => fuel

end

/-- The fuel that reading any part of the document takes. -/
def enough : Nat := 4 * s.size + 16

/-- The key at a position of a block mapping, without its colon. It ends on its line. -/
def keyNode? : (fuel : Nat) → Props → (pos : Nat) → Option (Node × Nat)
  | 0, _, _ => none
  | fuel + 1, p, pos =>
    if s.isAt pos ':' && s.isGap (pos + 1) then (emptyNode? d p).map (·, pos)
    else if s.isProperty pos then do
      let (p, stop) ← s.property? d false p pos
      keyNode? fuel p (s.skipBlanks stop)
    else if s.opensFlow pos then s.flow? d 0 true s.enough p pos
    else s.leaf? d false (s.size + 1) p pos

/-- The key that a line starts with at a position, and the position after its colon. -/
def key? (pos : Nat) : Option (Node × Nat) := do
  let (key, stop) ← s.keyNode? d (s.size + 1) {} pos
  let colon := s.skipBlanks stop
  if s.isAt colon ':' && s.isGap (colon + 1) && colon ≤ pos + keyLimit &&
      !s.hasNewline pos colon then
    some (key, colon + 1)
  else none

/-- Whether a one-character indicator of a block collection is here. -/
def isMark (mark : Char) (pos : Nat) : Bool := s.isAt pos mark && s.isGap (pos + 1)

/-- Whether the tab in a gap stands where only spaces may. -/
def tabMisplaced (place : Place) (g : Gap) (indent : Nat) : Bool :=
  g.tab && g.newline &&
    (s.isProperty g.pos ||
      (indent ≤ place.column.getD 0 && !(place.column.isNone && s.opensFlow g.pos)))

/-- Whether what follows a gap belongs to a node in the place. -/
def belongs (place : Place) (g : Gap) (indent : Nat) : Bool :=
  !g.newline || place.least ≤ indent ||
    (place.level && place.column == some indent && s.isMark '-' g.pos)

mutual

/-- A node outside brackets, from the gap before it on. -/
def node? : (fuel : Nat) → Place → Props → (pos : Nat) → Option (Node × Nat)
  | 0, _, _, _ => none
  | fuel + 1, place, p, pos =>
    let g := s.gap pos
    let start := g.pos
    match s.indent? start with
    | none => (emptyNode? d p).map (·, pos)
    | some indent =>
      if s.tabMisplaced place g indent then none
      else if !s.belongs place g indent then (emptyNode? d p).map (·, pos)
      else
        let column := if g.newline then indent else s.column start
        let collection := g.newline || place.compact
        if collection && s.isMark '-' start then
          if g.tab then none
          else do
            let (items, stop) ← blockItems? fuel column start
            some (Schema.list p.tag p.anchor items, stop)
        else if collection && (s.isMark '?' start || (s.key? d start).isSome) then
          if g.tab then none
          else do
            let (entries, stop) ← blockEntries? fuel column start
            some (← mappingNode? d p entries, stop)
        else if s.isProperty start then do
          let (p, stop) ← s.property? d false p start
          node? fuel { place with compact := false } p stop
        else if s.isAt start '|' || s.isAt start '>' then do
          let (content, stop) ← Scalar.readBlock? s place.column start
          some (← scalarNode? d p .quoted content, stop)
        else do
          let (node, stop) ←
            if s.opensFlow start then s.flow? d place.least true s.enough p start
            else s.leaf? d false place.least p start
          if s.isLineDone stop then some (node, stop) else none

/-- The items of a list whose dashes stand at a column, from a dash on. -/
def blockItems? : (fuel column pos : Nat) → Option (List Node × Nat)
  | 0, _, _ => none
  | fuel + 1, column, pos => do
    let (item, stop) ← node? fuel ⟨some column, true, false⟩ {} (pos + 1)
    let g := s.gap stop
    if g.newline && !g.tab && s.indent? g.pos == some column && s.isMark '-' g.pos then
      let (items, stop) ← blockItems? fuel column g.pos
      return (item :: items, stop)
    else return ([item], stop)

/-- The entries of a mapping whose keys stand at a column, from a key on. -/
def blockEntries? : (fuel column pos : Nat) → Option (List (Node × Node) × Nat)
  | 0, _, _ => none
  | fuel + 1, column, pos => do
    let (key, value, stop) ←
      if s.isMark '?' pos then do
        let (key, stop) ← node? fuel ⟨some column, true, false⟩ {} (pos + 1)
        let g := s.gap stop
        if g.newline && !g.tab && s.indent? g.pos == some column && s.isMark ':' g.pos then
          let (value, stop) ← node? fuel ⟨some column, true, true⟩ {} (g.pos + 1)
          some (key, value, stop)
        else some (key, ← emptyNode? d {}, stop)
      else do
        let (key, after) ← s.key? d pos
        let (value, stop) ← node? fuel ⟨some column, false, true⟩ {} after
        some (key, value, stop)
    let g := s.gap stop
    if g.newline && !g.tab && s.indent? g.pos == some column then
      let (entries, stop) ← blockEntries? fuel column g.pos
      return ((key, value) :: entries, stop)
    else return ([(key, value)], stop)

end

end Layout

namespace Directives

def words (line : List Char) : List String :=
  ((String.ofList (line.map fun c => if c == '\t' then ' ' else c)).splitOn " ").filter (!·.isEmpty)

def isVersion (s : String) : Bool :=
  match s.splitOn "." with
  | [major, minor] => [major, minor].all fun part => !part.isEmpty && part.toList.all Char.isDigit
  | _ => false

/-- Takes a directive line in. Unknown directives are left aside. -/
def read? (d : Directives) (line : List Char) : Option Directives :=
  match words line with
  | ["%YAML", version] =>
    if version == "1.1" then some { d with schema := .wide }
    else if version == "1.2" then some { d with schema := .core }
    else if isVersion version then some d
    else none
  | "%YAML" :: _ => none
  | ["%TAG", handle, start] => some { d with handles := (handle, start) :: d.handles }
  | "%TAG" :: _ => none
  | _ => some d

end Directives

namespace Layout

def directiveLine (s : Layout) (pos : Nat) : List Char :=
  let stop := s.lineEnd pos
  let rec comment : (fuel pos : Nat) → Nat
    | 0, pos => pos
    | fuel + 1, pos => if stop ≤ pos || s.isComment pos then pos else comment fuel (pos + 1)
  s.slice pos (min stop (comment (stop - pos) pos))

/-- The directives at the start, whether there are any, and the position after them. -/
def directives? (s : Layout) : (fuel : Nat) → Directives → (found : Bool) → (pos : Nat) →
    Option (Directives × Bool × Nat)
  | 0, d, found, pos => some (d, found, pos)
  | fuel + 1, d, found, pos =>
    let start := (s.gap pos).pos
    if s.isAt start '%' && s.column start == 0 then do
      directives? s fuel (← d.read? (s.directiveLine start)) true (s.lineEnd start)
    else some (d, found, pos)

/-- Whether nothing but end markers follows. -/
def isDone (s : Layout) : (fuel pos : Nat) → Bool
  | 0, _ => false
  | fuel + 1, pos =>
    let g := s.gap pos
    s.size ≤ g.pos ||
      (g.newline && s.isMarker '.' g.pos && s.column g.pos == 0 && isDone s fuel (g.pos + 3))

/-- The only document of a text, and the directives that hold for it. -/
def document? (s : Layout) : Option (Directives × Node) := do
  let (d, found, pos) ← s.directives? (s.size + 1) {} false 0
  let start := (s.gap pos).pos
  let explicit := s.isMarker '-' start && s.column start == 0
  if (found && !explicit) || (s.isMarker '.' start && s.column start == 0) then none
  let (root, stop) ← s.node? d s.enough .document {} (if explicit then start + 3 else pos)
  if s.isDone (s.size + 1) stop then some (d, root) else none

end Layout

end Marshal.Yaml
