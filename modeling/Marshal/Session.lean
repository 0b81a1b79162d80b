import Marshal.Journal.LineLog
import Marshal.Registry.Live

namespace Marshal

open Registry

/-- A log as the sink of registries, with how many entries it was handed so far. -/
structure JsonlSink where
  log : LineLog
  handed : Nat

namespace JsonlSink

variable (clock : Nat → String)

/-- Writes every entry to the log, with a time of its own. -/
def sink : Sink JsonlSink where
  write e := modify fun s => ⟨s.log.write ⟨clock s.handed, e⟩, s.handed + 1⟩

/-- Entries with their times. The first of them comes after `handed` others. -/
def stamp (handed : Nat) (entries : List LogEntry) : List Stamped :=
  (entries.zipIdx handed).map fun (e, i) => ⟨clock i, e⟩

end JsonlSink

/-- Registries with the sink that all of them log to. -/
structure Session where
  registries : List Registry
  sink : JsonlSink

namespace Session

/-- What can come to a session. -/
inductive Input where
  | request (request : Request)
  | close
  /-- The file fails. -/
  | fail

namespace Input

def request? : Input → Option Request
  | request r => some r
  | close | fail => none

def closes : Input → Bool
  | close => true
  | request _ | fail => false

def requests (inputs : List Input) : List Request := inputs.filterMap request?

/-- The inputs before the log is closed for the first time. -/
def beforeClose (inputs : List Input) : List Input :=
  inputs.takeWhile fun input => !input.closes

end Input

/-- Registries with a log that has just been opened, or could not be. -/
def start (registries : List Registry) (path : String) (opening : Opening) : Session :=
  ⟨registries, (LineLog.start path opening).1, 0⟩

variable (clock : Nat → String)

/-- Takes an input; a request comes to something. -/
def step (s : Session) : Input → List (Option Outcome) × Session
  | .request request =>
    let (came, registries, sink) := (JsonlSink.sink clock).request s.registries s.sink request
    ([came], ⟨registries, sink⟩)
  | .close => ([], ⟨s.registries, s.sink.log.close, s.sink.handed⟩)
  | .fail => ([], ⟨s.registries, s.sink.log.fail.1, s.sink.handed⟩)

def run (s : Session) : List Input → List (Option Outcome) × Session
  | [] => ([], s)
  | input :: rest =>
    let (came, s) := step clock s input
    let (more, s) := run s rest
    (came ++ more, s)

end Session

end Marshal
