import Marshal.Journal
import Marshal.Json.Parser

namespace Marshal

/-- A log entry with the time at which it was made. -/
structure Stamped where
  time : String
  entry : LogEntry
deriving DecidableEq, Repr

def direction? (name : String) : Option Direction :=
  [Direction.serialize, .deserialize].find? (·.name == name)

/-- Reads an entry back from its named parts. -/
def LogEntry.ofParts? (part : String → Option String) : Option LogEntry := do
  let context ← part "context"
  let name ← part "event"
  let event ←
    if name == "type_registered" then do some (Event.registered (← part "tag") (← part "type"))
    else if name == "type_replaced" then do some (.replaced (← part "tag") (← part "type"))
    else if name == "tag_conflict" then do
      some (.conflict (← part "tag") (← part "type") (← part "previousType"))
    else if name == "context_cloned" then do some (.cloned (← part "parent"))
    else if name == "codec_failure" then do
      some (.codecFailure (← part "tag") (← part "type") (← direction? (← part "direction"))
        (← part "error"))
    else none
  return ⟨context, event⟩

namespace Stamped

def parts (s : Stamped) : List (String × String) := ("ts", s.time) :: s.entry.parts

def toJson (s : Stamped) : Json := .object (s.parts.map fun (name, text) => (name, .string text))

/-- The entry as one line of text, without its line end. -/
def line (s : Stamped) : List Char := s.toJson.print

def ofJson? (j : Json) : Option Stamped := do
  let .object members := j | none
  let part (name : String) : Option String :=
    match members.lookup name with
    | some (.string s) => some s
    | _ => none
  return ⟨← part "ts", ← LogEntry.ofParts? part⟩

end Stamped

/-- How opening a file for a log turns out. -/
inductive Opening where
  | opens
  /-- The file cannot be made. -/
  | refused
  /-- The file is opened, and the first write to it fails. -/
  | breaks
deriving DecidableEq, Repr

/-- A log that appends an entry a line to a text, as long as it is open. -/
structure LineLog where
  isOpen : Bool
  text : List Char := []

/-- Stands for the wording of a failure of the file system. -/
def systemText : String := "<system>"

namespace LineLog

/-- Opens a log, and says how that went. -/
def start (path : String) : Opening → LineLog × Notice
  | .refused =>
    (⟨false, []⟩, .line .error s!"[Log] Failed to initialize log stream: {systemText}")
  | _ => (⟨true, []⟩, .line .log s!"[Log] JSONL logging enabled: {path}")

def write (l : LineLog) (s : Stamped) : LineLog :=
  if l.isOpen then { l with text := l.text ++ s.line ++ ['\n'] } else l

def close (l : LineLog) : LineLog := { l with isOpen := false }

/-- A failing file loses what was written and takes nothing any more. -/
def fail (_ : LineLog) : LineLog × Notice :=
  (⟨false, []⟩, .line .error s!"[Log] Log stream error: {systemText}")

/-- The lines of a text that ends each of them with a line end. -/
def lines : List Char → List (List Char)
  | [] => []
  | c :: rest =>
    if c = '\n' then [] :: lines rest
    else
      match lines rest with
      | [] => [[c]]
      | line :: more => (c :: line) :: more

/-- The entries that the lines of a text spell, with their times. -/
def stamped? (text : List Char) : Option (List Stamped) :=
  (lines text).mapM fun line => (Json.parse? line).bind Stamped.ofJson?

def entries? (text : List Char) : Option (List LogEntry) :=
  (stamped? text).map (·.map Stamped.entry)

end LineLog

end Marshal
