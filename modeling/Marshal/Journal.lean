import Marshal.Fault

namespace Marshal

/-- What a registry reports. -/
inductive Event where
  | registered (tag type : String)
  | replaced (tag type : String)
  | conflict (tag type previousType : String)
  | cloned (parent : String)
  | codecFailure (tag type : String) (direction : Direction) (error : String)
deriving DecidableEq, Repr

/-- An event with the name of the registry it happened in. -/
structure LogEntry where
  context : String
  event : Event
deriving DecidableEq, Repr

inductive Level where
  | log | warn | error
deriving DecidableEq, Repr

def Level.name : Level → String
  | log => "log"
  | warn => "warn"
  | error => "error"

/-- What an operation gives to its surroundings beside its result. -/
inductive Notice where
  | entry (e : LogEntry)
  | line (level : Level) (text : String)
deriving DecidableEq, Repr

namespace Notice

def entry? : Notice → Option LogEntry
  | entry e => some e
  | line .. => none

def line? : Notice → Option (Level × String)
  | entry _ => none
  | line level text => some (level, text)

end Notice

def logged (notices : List Notice) : List LogEntry := notices.filterMap Notice.entry?

namespace Event

def name : Event → String
  | registered .. => "type_registered"
  | replaced .. => "type_replaced"
  | conflict .. => "tag_conflict"
  | cloned _ => "context_cloned"
  | codecFailure .. => "codec_failure"

/-- The named parts of an event, in the order in which they are written. -/
def parts : Event → List (String × String)
  | registered tag type | replaced tag type => [("tag", tag), ("type", type)]
  | conflict tag type previousType =>
    [("tag", tag), ("type", type), ("previousType", previousType)]
  | cloned parent => [("parent", parent)]
  | codecFailure tag type direction error =>
    [("tag", tag), ("type", type), ("direction", direction.name), ("error", error)]

end Event

def LogEntry.parts (e : LogEntry) : List (String × String) :=
  ("context", e.context) :: ("event", e.event.name) :: e.event.parts

abbrev Reporting := ExceptT Fault (StateM (List Notice))

def report (n : Notice) : Reporting Unit := modify (· ++ [n])

end Marshal
