import Marshal.Registry
import Marshal.Yaml.Document

namespace Marshal

/-- A registry to derive: a copy of its parent in which some tags are pickled. -/
structure Profile where
  name : String
  parent : String := "default"
  pickled : List String := []
deriving DecidableEq, Repr

/-- Why profiles cannot be read. -/
inductive ProfileError where
  | missingFile
  | unreadable (why : Yaml.ReadError)
  /-- A value to be shown in a message has no text. -/
  | noText
  | notMapping
  | noVersion
  | unknownVersion (shown : String)
  | noProfiles
  | entryNotMapping
  | noName
  | duplicateName (name : String)
  | unknownParent (name shown : String)
  | badTags (name : String)
deriving DecidableEq, Repr

namespace ProfileError

/-- The message; nothing where the failure has no wording of its own. -/
def message? : ProfileError → Option String
  | missingFile | unreadable .malformed | unreadable .alias | noText => none
  | unreadable .merge => some "Merge sources must be maps or map aliases"
  | notMapping => some "Profile config must be a mapping"
  | noVersion => some "Profile config missing required field: version"
  | unknownVersion shown => some s!"Unsupported profile version: {shown}"
  | noProfiles => some "Profile config missing required field: profiles (must be array)"
  | entryNotMapping => some "Profile must be a mapping"
  | noName => some "Profile missing required field: name"
  | duplicateName name => some s!"Profile {name}: duplicate name"
  | unknownParent name shown => some s!"Profile {name}: extends unknown profile {shown}"
  | badTags name => some s!"Profile {name}: pickle must be an array of tags"

end ProfileError

namespace Profile

/-- The name of the profile that all others derive from. -/
def baseName : String := "default"

def version : String := "typereg/v0"

def shown (v : Yaml) : Except ProfileError String :=
  match v.shown? with
  | some s => .ok s
  | none => .error .noText

/-- The parent of an entry, which is the base or was met before. -/
def parentOf (seen : List String) (name : String) (entry : Yaml) : Except ProfileError String :=
  match Yaml.given (entry.field "extends") with
  | none => .ok baseName
  | some v =>
    match v with
    | .text parent =>
      if seen.contains parent then .ok parent else .error (.unknownParent name parent)
    | v => do throw (.unknownParent name (← shown v))

def tagsOf (name : String) (entry : Yaml) : Except ProfileError (List String) :=
  match Yaml.given (entry.field "pickle") with
  | none => .ok []
  | some (.list items) =>
    match items.mapM Yaml.text? with
    | some tags => .ok tags
    | none => .error (.badTags name)
  | some _ => .error (.badTags name)

def ofYaml (seen : List String) (entry : Yaml) : Except ProfileError Profile := do
  if !entry.isMapping then throw .entryNotMapping
  let name := ((entry.field "name").bind Yaml.text?).getD ""
  if name.isEmpty then throw .noName
  if seen.contains name then throw (.duplicateName name)
  let parent ← parentOf seen name entry
  let pickled ← tagsOf name entry
  return { name, parent, pickled }

/-- Entries in order. Names are distinct, and each parent comes before its children. -/
def entriesOf : (seen : List String) → List Yaml → Except ProfileError (List Profile)
  | _, [] => .ok []
  | seen, entry :: rest => do
    let p ← ofYaml seen entry
    return p :: (← entriesOf (seen ++ [p.name]) rest)

def validate (v : Yaml) : Except ProfileError (List Profile) := do
  if !v.isMapping then throw .notMapping
  let given := (v.field "version").getD .null
  if given.isVoid then throw .noVersion
  match given with
  | .text s => if s != version then throw (.unknownVersion s)
  | other => throw (.unknownVersion (← shown other))
  match v.field "profiles" with
  | some (.list entries) => entriesOf [baseName] entries
  | _ => throw .noProfiles

def parse (text : String) : Except ProfileError (List Profile) := do
  match Yaml.parse text with
  | .ok v => validate v
  | .error why => throw (.unreadable why)

def load (file : Option String) : Except ProfileError (List Profile) :=
  match file with
  | some text => parse text
  | none => .error .missingFile

/-- Registries by the name of their profile. A known name keeps its position. -/
abbrev Family := Assoc String Registry

def derive (parent : Registry) (p : Profile) : Reporting Registry := do
  let copy ← parent.clone { name := some p.name }
  p.pickled.foldlM (fun copy tag => do
    let some type := parent.typeForTag tag | throw (.registry (.unregisteredTag tag))
    copy.registerPickled type tag) copy

/-- Derives a registry for each profile, from the base on. Parents are not changed. -/
def build (base : Registry) (profiles : List Profile) : Reporting Family :=
  profiles.foldlM (fun family p => do
    let some parent := family.find? p.parent
      | throw (.error s!"Profile {p.name}: extends unknown profile {p.parent}")
    let r ← derive parent p
    report (.line .log
      s!"[Profiles] Built {p.name} from {p.parent}: {p.pickled.length} pickled tags")
    return Assoc.set family p.name r) [(baseName, base)]

end Profile

end Marshal
