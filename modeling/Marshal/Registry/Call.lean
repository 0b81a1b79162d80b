import Marshal.Registry.Serialize

namespace Marshal

/-- What can be asked of a registry. A call on values comes with the stack it has and the graph it
finds. -/
inductive Call where
  | register (type : TypeRef) (tag : String) (codec : Codec)
  | registerPickled (type : TypeRef) (tag : String)
  /-- Makes a copy and stays with the registry. -/
  | copy (overrides : Options)
  /-- Makes a copy and goes on with it. -/
  | clone (overrides : Options)
  | resolve (graph : Graph) (v : Value)
  | serialize (stack : Nat) (graph : Graph) (v : Value)
  | deserialize (stack : Nat) (graph : Graph) (tag : String) (data : Value)

/-- What a call returns, with the graph it leaves. -/
inductive Answer where
  | bound (result : Except Fault Unit)
  | copied (result : Except Fault Registry)
  | entry (e : Entry)
  | tree (result : Except Fault Tree) (graph : Graph)
  | value (result : Except Fault Value) (graph : Graph)

/-- An answer with what was reported, and the registry that later calls find. -/
structure Outcome where
  answer : Answer
  notices : List Notice
  registry : Registry

namespace Call

/-- Whether the registry that later calls find may have other bindings. -/
def rebinds : Call → Bool
  | register .. | registerPickled .. | clone _ => true
  | copy _ | resolve .. | serialize .. | deserialize .. => false

end Call

namespace Registry

/-- Runs a step that binds a type. A failure leaves the registry as it was. -/
def binding (r : Registry) (step : Reporting Registry) : Outcome :=
  match step.run [] with
  | (.ok bound, notices) => ⟨.bound (.ok ()), notices, bound⟩
  | (.error fault, notices) => ⟨.bound (.error fault), notices, r⟩

def working {α : Type} (r : Registry) (stack : Nat) (graph : Graph) (step : Step α)
    (answer : Except Fault α → Graph → Answer) : Outcome :=
  let (result, scene) := step.run { registry := r, graph, stack }
  ⟨answer result scene.graph, scene.notices, scene.registry⟩

def perform (r : Registry) : Call → Outcome
  | .register type tag codec => r.binding (r.register type tag codec)
  | .registerPickled type tag => r.binding (r.registerPickled type tag)
  | .copy overrides =>
    let (result, notices) := (r.clone overrides).run []
    ⟨.copied result, notices, r⟩
  | .clone overrides =>
    let (result, notices) := (r.clone overrides).run []
    ⟨.copied result, notices, result.toOption.getD r⟩
  | .resolve graph v =>
    let (e, after) := r.resolve graph v
    ⟨.entry e, [], after⟩
  | .serialize stack graph v => r.working stack graph (serialize v) .tree
  | .deserialize stack graph tag data => r.working stack graph (deserialize tag data) .value

/-- The registry after calls one after the other, failed ones included. -/
def run (r : Registry) (calls : List Call) : Registry :=
  calls.foldl (fun r call => (r.perform call).registry) r

end Registry

end Marshal
