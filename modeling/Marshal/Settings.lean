import Marshal.Registry
import Marshal.CodecRegistry

namespace Marshal

/-- The variables around a program; a later one of a name wins. -/
abbrev Environment := List (String × String)

/-- A variable that is set to something. -/
def Environment.get? (env : Environment) (name : String) : Option String :=
  (env.reverse.lookup name).filter (!·.isEmpty)

/-- What an environment says about registries. -/
structure Settings where
  /-- The name of the byte codec, in small letters. -/
  fallback : String
  maxDepth : Number
  duplicateTags : Policy
  logPath : Option String
  profilesPath : Option String

namespace Settings

/-- The whole number that a text starts with, after blanks and a sign; the rest is left aside. -/
def leadingNumber? (s : String) : Option Number :=
  let (negative, rest) := Text.spanSign (Text.trimLeft s.toList)
  let digits := rest.takeWhile Char.isDigit
  if digits.isEmpty then none
  else some (Number.ofRatio negative (Text.natOfDigits digits) 1)

def isPositiveWhole (x : Number) : Bool :=
  match x.toInt? with
  | some n => 0 < n
  | none => false

def policies : List Policy := [.overwrite, .warn, .error]

def badDepth (given : String) : Fault :=
  .error s!"TYPEREG_MAX_DEPTH must be a positive integer, got {given}"

def badPolicy (given : String) : Fault :=
  let names := ", ".intercalate (policies.map Policy.name)
  .error s!"TYPEREG_DUPLICATE_TAGS must be one of {names}, got {given}"

/-- The limit on depth, if the text that is given for it starts with one. -/
def depthOf (env : Environment) : Except Fault Number :=
  match env.get? "TYPEREG_MAX_DEPTH" with
  | none => pure Registry.defaultMaxDepth
  | some given =>
    match (leadingNumber? given).filter isPositiveWhole with
    | some n => pure n
    | none => throw (badDepth given)

def policyOf (env : Environment) : Except Fault Policy :=
  let given := Text.lower ((env.get? "TYPEREG_DUPLICATE_TAGS").getD "warn")
  match policies.find? (·.name == given) with
  | some policy => pure policy
  | none => throw (badPolicy given)

def ofEnvironment (env : Environment) : Except Fault Settings := do
  let maxDepth ← depthOf env
  let duplicateTags ← policyOf env
  return {
    fallback := Text.lower ((env.get? "TYPEREG_FALLBACK_CODEC").getD "msgpack")
    maxDepth, duplicateTags
    logPath := env.get? "TYPEREG_LOG"
    profilesPath := env.get? "TYPEREG_PROFILES" }

end Settings

end Marshal
