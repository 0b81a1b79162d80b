import Marshal.Journal.LineLog
import Marshal.Profile
import Marshal.Registry.Defaults
import Marshal.Settings

namespace Marshal

def registerCodec (codecs : CodecRegistry ByteCodec) (codec : ByteCodec) :
    CodecRegistry ByteCodec :=
  codecs.register codec.name codec

def builtinCodecs : CodecRegistry ByteCodec := registerCodec (registerCodec ⟨[]⟩ .json) .messagePack

/-- What a set of registries finds around it. -/
structure Surroundings where
  /-- Whether the caller takes log entries itself. No file is opened then. -/
  hasSink : Bool := false
  /-- How opening the log file turns out. -/
  opening : Opening := .opens
  /-- The text of a file, if there is such a file. -/
  file : String → Option String := fun _ => none
  /-- The byte codecs that were registered. -/
  codecs : CodecRegistry ByteCodec := builtinCodecs

/-- The default registry and those of the profiles, with the log they write to. -/
structure Contexts where
  base : Registry
  profiles : Profile.Family
  log : Option LineLog

/-- Why registries cannot be set up. -/
inductive SetupError where
  | fault (fault : Fault)
  | profile (error : ProfileError)
deriving DecidableEq, Repr

def unknownFallback (codecs : CodecRegistry ByteCodec) (name : String) : Fault :=
  let known := ", ".intercalate (codecs.toList.map ByteCodec.name)
  .error s!"Unknown fallback codec \"{name}\" (available: {known})"

namespace Contexts

/-- Steps that may fail for any reason a setup can, and report as they go. -/
abbrev Building := ExceptT SetupError (StateM (List Notice))

def lift {α : Type} (step : Reporting α) : Building α := fun notices =>
  let (result, notices) := step notices
  match result with
  | .ok a => (.ok a, notices)
  | .error fault => (.error (.fault fault), notices)

/-- The log that settings ask for, unless the caller takes the entries. -/
def openLog (settings : Settings) (around : Surroundings) : Building (Option LineLog) :=
  match settings.logPath.filter fun _ => !around.hasSink with
  | none => pure none
  | some path => do
    let (log, notice) := LineLog.start path around.opening
    modify (· ++ [notice])
    return some log

def options (settings : Settings) (fallback : ByteCodec) : Options :=
  { fallback := some fallback, duplicateTags := some settings.duplicateTags,
    maxDepth := some settings.maxDepth }

def family (settings : Settings) (around : Surroundings) (base : Registry) :
    Building Profile.Family :=
  match settings.profilesPath with
  | none => pure [(Profile.baseName, base)]
  | some path =>
    match Profile.load (around.file path) with
    | .ok profiles => lift (Profile.build base profiles)
    | .error why => throw (.profile why)

/-- Builds the registries that settings ask for: the default one, with all built-in handlers, and
one for each profile. -/
def build (settings : Settings) (around : Surroundings) : Building Contexts := do
  let some fallback := around.codecs.get? (some settings.fallback)
    | throw (.fault (unknownFallback around.codecs settings.fallback))
  let log ← openLog settings around
  let base ← lift (Registry.standard (options settings fallback))
  let profiles ← family settings around base
  return { base, profiles, log }

/-- Stands for a reading of the clock. -/
def clockText : String := "<time>"

/-- Writes what was reported to the log. -/
def record (contexts : Contexts) (notices : List Notice) : Contexts :=
  { contexts with log := contexts.log.map fun log =>
      (notices.filterMap Notice.entry?).foldl (fun log e => log.write ⟨clockText, e⟩) log }

/-- Closes the log. Registries can still be used. -/
def close (contexts : Contexts) : Contexts :=
  { contexts with log := contexts.log.map LineLog.close }

end Contexts

end Marshal
