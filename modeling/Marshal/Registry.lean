import Marshal.Assoc
import Marshal.Journal
import Marshal.Registry.Entry

namespace Marshal

/-- What happens when a tag is bound that another type holds. -/
inductive Policy where
  | overwrite | warn | error
  /-- Any other name overwrites in silence. -/
  | other (name : String)
deriving DecidableEq, Repr

namespace Policy

def name : Policy → String
  | overwrite => "overwrite"
  | warn => "warn"
  | error => "error"
  | other name => name

def ofName (name : String) : Policy :=
  if name == "overwrite" then overwrite
  else if name == "warn" then warn
  else if name == "error" then error
  else other name

end Policy

/-- The tag of values of no registered type. -/
def fallbackTag : String := "__fallback__"

/-- Settings that may be left open. -/
structure Options where
  name : Option String := none
  fallback : Option ByteCodec := none
  duplicateTags : Option Policy := none
  maxDepth : Option Number := none

/-- Types bound to tags. -/
structure Registry where
  name : String
  /-- The byte codec of pickled entries and of values of no registered type. -/
  fallback : ByteCodec
  duplicateTags : Policy
  /-- How many levels below the root a tree may have. -/
  maxDepth : Number
  byClass : Assoc Class Entry := []
  byTag : Assoc String Entry := []
  /-- What the classes met so far dispatch to. -/
  resolved : Assoc Class Entry := []

namespace Registry

def defaultMaxDepth : Number := Number.ofNat 100

def new (options : Options) : Registry where
  name := options.name.getD "context"
  fallback := options.fallback.getD .messagePack
  duplicateTags := options.duplicateTags.getD .warn
  maxDepth := options.maxDepth.getD defaultMaxDepth

def fallbackEntry (r : Registry) : Entry :=
  { type := none, tag := fallbackTag, codec := Pickle.codec r.fallback none, pickled := true }

def has (r : Registry) (tag : String) : Bool := (r.byTag.find? tag).isSome

/-- Bound tags, in the order in which they were bound. -/
def tags (r : Registry) : List String := r.byTag.keys

def typeForTag (r : Registry) (tag : String) : Option TypeRef := (r.byTag.find? tag).bind (·.type)

def emit (r : Registry) (event : Event) : Reporting Unit := report (.entry ⟨r.name, event⟩)

def noPrototype (type : TypeRef) : Fault :=
  .typeError ("Cannot register " ++ (if type.name.isEmpty then "anonymous type" else type.name) ++
    ": it has no prototype")

def holderName (e : Entry) : String := (e.type.map TypeRef.name).getD "unknown"

def rival? (r : Registry) (c : Class) (tag : String) : Option Entry :=
  (r.byTag.find? tag).filter (·.prototype? != some c)

/-- What is said when a tag is taken from the type that holds it, as the policy has it. -/
def contest (r : Registry) (holder : Entry) (type : TypeRef) (tag : String) : Reporting Unit := do
  let previous := holderName holder
  match r.duplicateTags with
  | .error => throw (.registry (.duplicateTag tag previous type.name))
  | .warn =>
    report (.line .warn
      s!"[Registry] {r.name}: tag \"{tag}\" rebound from {previous} to {type.name}")
  | _ => pure ()
  r.emit (.conflict tag type.name previous)

def dropClass (r : Registry) : Option Class → Registry
  | some c => { r with byClass := r.byClass.erase c }
  | none => r

def dropTag (r : Registry) : Option String → Registry
  | some tag => { r with byTag := r.byTag.erase tag }
  | none => r

/-- Puts an entry under its class and its tag. What classes dispatch to may have changed, so nothing
is remembered about it. -/
def store (r : Registry) (c : Class) (e : Entry) : Registry :=
  { r with byClass := r.byClass.set c e, byTag := r.byTag.set e.tag e, resolved := [] }

/-- The registry with an entry bound to a class. The tag is taken from another type that holds it,
and the class loses a tag it had before. -/
def rebind (r : Registry) (c : Class) (e : Entry) : Registry :=
  let loser := (r.rival? c e.tag).bind Entry.prototype?
  let former := ((r.byClass.find? c).map Entry.tag).filter (· != e.tag)
  ((r.dropClass loser).dropTag former).store c e

/-- Decides what a binding has to put in, and under which class. Binding the same again puts in
nothing. -/
def accept (r : Registry) (type : TypeRef) (tag : String) (codec : Codec) (pickled : Bool) :
    Reporting (Option (Class × Entry)) :=
  if tag == fallbackTag then throw (.registry (.reservedTag tag))
  else
    match type.prototype with
    | none => throw (noPrototype type)
    | some c =>
      let existing := r.byClass.find? c
      if existing.any fun e => e.tag == tag && e.does codec pickled then return none
      else do
        if let some holder := r.rival? c tag then r.contest holder type tag
        r.emit (if existing.isSome then .replaced tag type.name else .registered tag type.name)
        return some (c, { type := some type, tag, codec, pickled })

def bind (r : Registry) (type : TypeRef) (tag : String) (codec : Codec) (pickled : Bool) :
    Reporting Registry := do
  match ← r.accept type tag codec pickled with
  | none => return r
  | some (c, e) => return r.rebind c e

def register (r : Registry) (type : TypeRef) (tag : String) (codec : Codec) : Reporting Registry :=
  r.bind type tag codec false

/-- Binds a type whose values go to the fallback codec whole. -/
def registerPickled (r : Registry) (type : TypeRef) (tag : String) : Reporting Registry :=
  r.bind type tag (Pickle.codec r.fallback (some type)) true

/-- Adds an entry of another registry, with the copy's own fallback codec if it is pickled. -/
def adopt (copy : Registry) (e : Entry) : Registry :=
  let own := e.withFallback copy.fallback
  let copy := { copy with byTag := copy.byTag.set own.tag own }
  match own.prototype? with
  | some c => { copy with byClass := copy.byClass.set c own }
  | none => copy

def copyWith (r : Registry) (overrides : Options) : Registry :=
  let start : Registry :=
    { name := overrides.name.getD (r.name ++ ":clone")
      fallback := overrides.fallback.getD r.fallback
      duplicateTags := overrides.duplicateTags.getD r.duplicateTags
      maxDepth := overrides.maxDepth.getD r.maxDepth }
  r.byTag.values.foldl adopt start

/-- An independent copy; codecs are shared, entries are not. -/
def clone (r : Registry) (overrides : Options) : Reporting Registry := do
  let copy := r.copyWith overrides
  report (.entry ⟨copy.name, .cloned r.name⟩)
  return copy

/-- The entry of the nearest class of a lineage that has one. -/
def nearest (r : Registry) (lineage : List Class) : Entry :=
  (lineage.findSome? (r.byClass.find? ·)).getD r.fallbackEntry

/-- What a value dispatches to, by the classes it descends from. -/
def entryFor (r : Registry) (g : Graph) (v : Value) : Entry :=
  match g.classOf? v with
  | none => r.fallbackEntry
  | some c => r.nearest c.lineage

/-- What a value dispatches to, remembering it for the next value of the class. -/
def resolve (r : Registry) (g : Graph) (v : Value) : Entry × Registry :=
  match g.classOf? v with
  | none => (r.fallbackEntry, r)
  | some c =>
    match r.resolved.find? c with
    | some e => (e, r)
    | none =>
      let e := r.nearest c.lineage
      (e, { r with resolved := r.resolved.set c e })

end Registry

end Marshal
