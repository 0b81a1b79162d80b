import Marshal.Registry.Request

namespace Marshal

/-- Takes log entries one by one. It has a state of its own, and it may fail. -/
structure Sink (σ : Type) where
  write : LogEntry → ExceptT Fault (StateM σ) Unit

/-- Steps on a scene beside a sink, which hears of every log entry at once. -/
abbrev Live (σ : Type) := ExceptT Fault (StateM (Scene × σ))

namespace Live

open Registry

variable {σ α : Type}

def still (x : Step α) : Live σ α := fun (scene, t) =>
  let (result, scene) := x.run scene
  (result, (scene, t))

def scene : Live σ Scene := return (← get).1

def change (f : Registry → Registry) : Live σ Unit :=
  still (modify fun s => { s with registry := f s.registry })

section Logging

variable (sink : Sink σ)

/-- Hands an entry to the sink. What the sink throws is thrown here. -/
def hand (e : LogEntry) : Live σ Unit := fun (scene, t) =>
  let (result, t) := (sink.write e).run t
  (result, (scene, t))

/-- Makes a log entry: it is noted and goes to the sink. -/
def log (e : LogEntry) : Live σ Unit := do
  still (Step.note (.entry e))
  hand sink e

def emit (event : Event) : Live σ Unit := do log sink ⟨(← scene).registry.name, event⟩

def failure (e : Entry) (typeName : String) (direction : Direction) : Fault → Live σ Fault
  | .registry error => return .registry error
  | .wordless _ raised => return raised
  | .cause cause => do
    let error := RegistryError.codecFailure e.tag typeName direction cause
    emit sink (.codecFailure e.tag typeName direction error.message)
    return .registry error

def represent (e : Entry) (v : Value) : Live σ Value := do
  let typeName := (← scene).graph.typeName v
  match ← still (Step.act (e.codec.serialize.run v)) with
  | .ok representation =>
    let g := (← scene).graph
    if g.isBytes representation || (g.items? representation).isSome then return representation
    else throw (← failure sink e typeName .serialize notRepresentation)
  | .error fault => throw (← failure sink e typeName .serialize fault)

def mapItems (f : Option Value → Live σ α) (list : Value) : (start count : Nat) → Live σ (List α)
  | _, 0 => return []
  | start, count + 1 => do
    let a ← f ((← scene).graph.item? list start)
    return a :: (← mapItems f list (start + 1) count)

def encodeItem (write : Value → Live σ Tree) : Option Value → Live σ Tree
  | none => return .hole
  | some v => do if (← scene).graph.isLeaf v then return .leaf v else write v

def serializeAt : (fuel depth : Nat) → Value → Live σ Tree
  | 0, _, _ => throw .outOfRange
  | fuel + 1, depth, v => do
    still (checkDepth depth)
    let e ← still (dispatch v)
    let representation ← represent sink e v
    let g := (← scene).graph
    if g.isBytes representation then return .packed e.tag representation
    else
      let count := ((g.items? representation).getD []).length
      let slots ← mapItems (encodeItem (serializeAt fuel (depth + 1))) representation 0 count
      return .tuple e.tag (g.kindOf? representation) slots

def serialize (v : Value) : Live σ Tree := do serializeAt sink (← scene).stack 0 v

def rebuild (e : Entry) (representation : Value) : Live σ Value := do
  match ← still (Step.act (e.codec.deserialize.run representation)) with
  | .ok v => return v
  | .error fault => throw (← failure sink e e.typeName .deserialize fault)

def decodeItem (read : String → Value → Live σ Value) : Option Value → Live σ (Option Value)
  | none => return none
  | some v => do
    match (← scene).graph.look v with
    | .ok none => return some v
    | .ok (some (tag, data)) => return some (← read tag data)
    | .error fault => throw fault

def input (read : String → Value → Live σ Value) (data : Value) : Live σ Value := do
  let g := (← scene).graph
  if g.isBytes data then return data
  else
    match (g.objectOf? data).map Object.body with
    | some (.list items) =>
      let items ← mapItems (decodeItem read) data 0 items.length
      still (newObject { kind := g.kindOf? data, body := .list items })
    | some (.numbers dtype bytes) =>
      still (newObject { kind := g.kindOf? data, body := .numbers dtype bytes })
    | _ => throw .misuse

def deserializeAt : (fuel depth : Nat) → (tag : String) → (data : Value) → Live σ Value
  | 0, _, _, _ => throw .outOfRange
  | fuel + 1, depth, tag, data => do
    let e ← still (enter tag depth)
    rebuild sink e (← input (deserializeAt fuel (depth + 1)) data)

def deserialize (tag : String) (data : Value) : Live σ Value := do
  deserializeAt sink (← scene).stack 0 tag data

/-- What is said when a tag is taken from the type that holds it, as the policy has it. -/
def contest (holder : Entry) (type : TypeRef) (tag : String) : Live σ Unit := do
  let r := (← scene).registry
  let previous := holderName holder
  match r.duplicateTags with
  | .error => throw (.registry (.duplicateTag tag previous type.name))
  | .warn =>
    still (Step.note (.line .warn
      s!"[Registry] {r.name}: tag \"{tag}\" rebound from {previous} to {type.name}"))
  | _ => pure ()
  emit sink (.conflict tag type.name previous)

/-- Takes a tag from another type that holds it. -/
def seize (c : Class) (type : TypeRef) (tag : String) : Live σ Unit := do
  match (← scene).registry.rival? c tag with
  | none => return
  | some holder =>
    contest sink holder type tag
    change fun r => r.dropClass holder.prototype?

/-- Puts an entry under its class and its tag in place of the one that the class had. -/
def install (c : Class) (e : Entry) (existing : Option Entry) : Live σ Unit := do
  change fun r => (r.dropTag ((existing.map Entry.tag).filter (· != e.tag))).store c e
  emit sink (if existing.isSome then .replaced e.tag (holderName e)
    else .registered e.tag (holderName e))

/-- Binds a type to a tag, with one change after the other. -/
def bind (type : TypeRef) (tag : String) (codec : Codec) (pickled : Bool) : Live σ Unit := do
  if tag == fallbackTag then throw (.registry (.reservedTag tag))
  else
    match type.prototype with
    | none => throw (noPrototype type)
    | some c =>
      let existing := (← scene).registry.byClass.find? c
      if existing.any fun e => e.tag == tag && e.does codec pickled then return
      else do
        seize sink c type tag
        install sink c { type := some type, tag, codec, pickled } existing

def clone (overrides : Options) : Live σ Registry := do
  let r := (← scene).registry
  let copy := r.copyWith overrides
  log sink ⟨copy.name, .cloned r.name⟩
  return copy

end Logging

end Live

namespace Sink

variable {σ : Type}

/-- Takes every entry and keeps none. -/
def silent : Sink Unit := ⟨fun _ => pure ()⟩

def working {α : Type} (r : Registry) (t : σ) (stack : Nat) (graph : Graph) (step : Live σ α)
    (answer : Except Fault α → Graph → Answer) : Outcome × σ :=
  let (result, (scene, t)) := step.run ({ registry := r, graph, stack }, t)
  (⟨answer result scene.graph, scene.notices, scene.registry⟩, t)

def binding (r : Registry) (t : σ) (step : Live σ Unit) : Outcome × σ :=
  working r t 0 ⟨#[]⟩ step fun result _ => .bound result

/-- A call of a registry that logs to a sink. -/
def perform (sink : Sink σ) (r : Registry) (t : σ) : Call → Outcome × σ
  | .register type tag codec => binding r t (Live.bind sink type tag codec false)
  | .registerPickled type tag =>
    binding r t (Live.bind sink type tag (Pickle.codec r.fallback (some type)) true)
  | .copy overrides =>
    working r t 0 ⟨#[]⟩ (Live.clone sink overrides) fun result _ => .copied result
  | .clone overrides =>
    let (outcome, t) :=
      working r t 0 ⟨#[]⟩ (Live.clone sink overrides) fun result _ => .copied result
    match outcome.answer with
    | .copied (.ok copy) => ({ outcome with registry := copy }, t)
    | _ => (outcome, t)
  | .resolve graph v =>
    let (e, after) := r.resolve graph v
    (⟨.entry e, [], after⟩, t)
  | .serialize stack graph v => working r t stack graph (Live.serialize sink v) .tree
  | .deserialize stack graph tag data =>
    working r t stack graph (Live.deserialize sink tag data) .value

def hear (sink : Sink σ) (t : σ) (entries : List LogEntry) : σ :=
  entries.foldl (fun t e => ((sink.write e).run t).2) t

/-- A request of registries that log to a sink: what it comes to, and what there is after it. -/
def request (sink : Sink σ) (registries : List Registry) (t : σ) (request : Registry.Request) :
    Option Outcome × (List Registry × σ) :=
  match request.asked? registries with
  | none => (none, (request.settle registries none, t))
  | some (r, call) =>
    let (outcome, t) := sink.perform r t call
    (some outcome, (request.settle registries (some outcome), t))

end Sink

end Marshal
