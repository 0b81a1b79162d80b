import Mathlib.Data.List.Forall2
import Marshal.Proofs.Registry.Memory

namespace Marshal

/-- Which names two runs side by side may show for the type under a tag. -/
abbrev Naming := String → String → String → Prop

/-- Faults that differ at most in the name shown for the type of a codec that failed. -/
inductive Fault.SameBut (naming : Naming) : Fault → Fault → Prop where
  | same (fault : Fault) : SameBut naming fault fault
  | named {tag before after : String} {direction : Direction} {cause : Cause}
      (name : naming tag before after) :
      SameBut naming (.registry (.codecFailure tag before direction cause))
        (.registry (.codecFailure tag after direction cause))

/-- Notices that differ at most in the name shown for the type of a codec that failed. -/
inductive Notice.SameBut (naming : Naming) : Notice → Notice → Prop where
  | same (n : Notice) : SameBut naming n n
  | named {context tag before after : String} {direction : Direction} {cause : Cause}
      (name : naming tag before after) :
      SameBut naming
        (.entry ⟨context, .codecFailure tag before direction
          (RegistryError.codecFailure tag before direction cause).message⟩)
        (.entry ⟨context, .codecFailure tag after direction
          (RegistryError.codecFailure tag after direction cause).message⟩)

/-- Results that are equal, or failures that differ at most in such a name. -/
inductive SameResult (naming : Naming) {α : Type} : Except Fault α → Except Fault α → Prop where
  | ok (a : α) : SameResult naming (.ok a) (.ok a)
  | error {fault fault' : Fault} (same : fault.SameBut naming fault') :
      SameResult naming (.error fault) (.error fault')

theorem Fault.SameBut.eq {fault fault' : Fault} (h : fault.SameBut (fun _ => Eq) fault') :
    fault = fault' := by
  cases h with
  | same => rfl
  | named name => rw [name]

theorem Notice.SameBut.eq {n n' : Notice} (h : n.SameBut (fun _ => Eq) n') : n = n' := by
  cases h with
  | same => rfl
  | named name => rw [name]

theorem SameResult.eq {α : Type} {result result' : Except Fault α}
    (h : SameResult (fun _ => Eq) result result') : result = result' := by
  cases h with
  | ok => rfl
  | error same => rw [same.eq]

theorem Notice.SameBut.eq_of_forall₂ {notices notices' : List Notice}
    (h : List.Forall₂ (Notice.SameBut fun _ => Eq) notices notices') : notices = notices' := by
  induction h with
  | nil => rfl
  | cons first _ ih => rw [first.eq, ih]

/-- Entries under one tag with the same routines. They may be for different types. -/
structure Entry.ActsAs (e e' : Entry) : Prop where
  tag : e.tag = e'.tag
  serialize : e.codec.serialize.run = e'.codec.serialize.run
  deserialize : e.codec.deserialize.run = e'.codec.deserialize.run

theorem Entry.ActsAs.refl (e : Entry) : e.ActsAs e := ⟨rfl, rfl, rfl⟩

namespace Registry

open Marshal.Effect
open Marshal.Step

/-- Registries that lead every value to entries that act the same. -/
structure Twin (r r' : Registry) : Prop where
  name : r.name = r'.name
  maxDepth : r.maxDepth = r'.maxDepth
  entryFor : ∀ g v, (r.entryFor g v).ActsAs (r'.entryFor g v)

/-- Registries that lead every tag to such entries besides. -/
structure Parallel (naming : Naming) (r r' : Registry) : Prop extends Twin r r' where
  entryForTag? : ∀ tag, Option.Rel
    (fun e e' => e.ActsAs e' ∧ naming e.tag e.typeName e'.typeName)
    (r.entryForTag? tag) (r'.entryForTag? tag)

/-- Scenes of two runs, whose registries are `r` and `r'` up to the classes they met. -/
structure Abreast (naming : Naming) (r r' : Registry) (s s' : Scene) : Prop where
  left : s.registry.Alike r
  right : s'.registry.Alike r'
  graph : s.graph = s'.graph
  stack : s.stack = s'.stack
  notices : List.Forall₂ (Notice.SameBut naming) s.notices s'.notices

/-- Steps that keep scenes abreast and have the same results. -/
def InStep (naming : Naming) (r r' : Registry) {α : Type} (x x' : Step α) : Prop :=
  ∀ s s', Abreast naming r r' s s' →
    SameResult naming (x.run s).1 (x'.run s').1 ∧ Abreast naming r r' (x.run s).2 (x'.run s').2

namespace Abreast

variable {naming : Naming} {r r' : Registry} {s s' : Scene} (h : Abreast naming r r' s s')

include h

theorem withGraph (g : Graph) : Abreast naming r r' { s with graph := g } { s' with graph := g } :=
  ⟨h.left, h.right, rfl, h.stack, h.notices⟩

theorem name_eq (twin : Twin r r') : s.registry.name = s'.registry.name :=
  ((congrArg Registry.name h.left.forget_eq :).trans twin.name).trans
    (congrArg Registry.name h.right.forget_eq :).symm

theorem maxDepth_eq (twin : Twin r r') :
    s.registry.maxDepth = s'.registry.maxDepth :=
  ((congrArg Registry.maxDepth h.left.forget_eq :).trans twin.maxDepth).trans
    (congrArg Registry.maxDepth h.right.forget_eq :).symm

theorem entryForTag? (parallel : Parallel naming r r') (tag : String) :
    Option.Rel (fun e e' => e.ActsAs e' ∧ naming e.tag e.typeName e'.typeName)
      (s.registry.entryForTag? tag) (s'.registry.entryForTag? tag) := by
  have left : s.registry.entryForTag? tag = r.entryForTag? tag :=
    (congrArg (Registry.entryForTag? · tag) h.left.forget_eq :)
  have right : s'.registry.entryForTag? tag = r'.entryForTag? tag :=
    (congrArg (Registry.entryForTag? · tag) h.right.forget_eq :)
  rw [left, right]
  exact parallel.entryForTag? tag

end Abreast

theorem Remembers.resolve_alike {r : Registry} (h : r.Remembers) (g : Graph) (v : Value) :
    (r.resolve g v).2.Alike r :=
  ⟨forget_resolve r g v, h.resolve g v, h⟩

namespace InStep

variable {naming : Naming} {r r' : Registry} {α β : Type}

theorem pure (a : α) : InStep naming r r' (pure a : Step α) (pure a) := fun _ _ h => ⟨.ok a, h⟩

theorem throw (fault : Fault) : InStep naming r r' (throw fault : Step α) (throw fault) :=
  fun _ _ h => ⟨.error (.same fault), h⟩

theorem bind {x x' : Step α} {f f' : α → Step β} (hx : InStep naming r r' x x')
    (hf : ∀ a, InStep naming r r' (f a) (f' a)) : InStep naming r r' (x >>= f) (x' >>= f') := by
  intro s s' h
  obtain ⟨same, abreast⟩ := hx s s' h
  rw [run_bind, run_bind]
  cases hr : x.run s with
  | mk result after =>
    cases hr' : x'.run s' with
    | mk result' after' =>
      rw [hr, hr'] at same abreast
      cases same with
      | ok a => exact hf a after after' abreast
      | error same => exact ⟨.error same, abreast⟩

theorem get_bind {f f' : Scene → Step α}
    (hf : ∀ s s', Abreast naming r r' s s' → InStep naming r r' (f s) (f' s')) :
    InStep naming r r' (get >>= f) (get >>= f') :=
  fun s s' h => hf s s' h s s' h

theorem set {s s' : Scene} (h : Abreast naming r r' s s') :
    InStep naming r r' (set s : Step PUnit) (set s') :=
  fun _ _ _ => ⟨.ok PUnit.unit, h⟩

theorem mapItems {f f' : Option Value → Step α} (hf : ∀ item, InStep naming r r' (f item) (f' item))
    (list : Value) (start count : Nat) :
    InStep naming r r' (mapItems f list start count) (mapItems f' list start count) := by
  induction count generalizing start with
  | zero => exact pure []
  | succ count ih =>
    refine get_bind fun s s' h => ?_
    rw [h.graph]
    exact bind (hf _) fun a => bind (ih (start + 1)) fun rest => pure (a :: rest)

theorem act (action : Action α) : InStep naming r r' (act action) (act action) := by
  refine get_bind fun s s' h => ?_
  rw [h.graph]
  exact bind (set (h.withGraph _)) fun _ => pure _

section Steps

variable (twin : Twin r r')

include twin

theorem throw_failure {e e' : Entry} (tags : e.tag = e'.tag) {before after : String}
    (names : before = after ∨ naming e.tag before after) (direction : Direction) (fault : Fault) :
    InStep naming r r' (α := α) (do MonadExcept.throw (← failure e before direction fault))
      (do MonadExcept.throw (← failure e' after direction fault)) := by
  cases fault with
  | registry error => exact throw (.registry error)
  | wordless kind raised => exact throw raised
  | cause cause =>
    intro s s' h
    have faults : Fault.SameBut naming (.registry (.codecFailure e.tag before direction cause))
        (.registry (.codecFailure e'.tag after direction cause)) := by
      rw [← tags]
      rcases names with rfl | named
      · exact .same _
      · exact .named named
    have notices : Notice.SameBut naming
        (.entry ⟨s.registry.name, .codecFailure e.tag before direction
          (RegistryError.codecFailure e.tag before direction cause).message⟩)
        (.entry ⟨s'.registry.name, .codecFailure e'.tag after direction
          (RegistryError.codecFailure e'.tag after direction cause).message⟩) := by
      rw [← tags, h.name_eq twin]
      rcases names with rfl | named
      · exact .same _
      · exact .named named
    exact ⟨.error faults, h.left, h.right, h.graph, h.stack,
      List.rel_append h.notices (.cons notices .nil)⟩

theorem checkDepth (depth : Nat) : InStep naming r r' (checkDepth depth) (checkDepth depth) := by
  refine get_bind fun s s' h => ?_
  dsimp only
  rw [h.maxDepth_eq twin]
  split
  · exact throw _
  · exact pure _

theorem dispatch_bind (v : Value) {f f' : Entry → Step α}
    (hf : ∀ e e', e.ActsAs e' → InStep naming r r' (f e) (f' e')) :
    InStep naming r r' (dispatch v >>= f) (dispatch v >>= f') := by
  intro s s' h
  have entries : (s.registry.resolve s.graph v).1.ActsAs (s'.registry.resolve s'.graph v).1 := by
    rw [h.left.left.resolve_eq, h.right.left.resolve_eq, ← h.graph, h.left.entryFor_eq,
      h.right.entryFor_eq]
    exact twin.entryFor s.graph v
  refine hf _ _ entries _ _ ⟨?_, ?_, h.graph, h.stack, h.notices⟩
  · exact (h.left.left.resolve_alike s.graph v).trans h.left
  · exact (h.right.left.resolve_alike s'.graph v).trans h.right

theorem represent {e e' : Entry} (acts : e.ActsAs e') (v : Value) :
    InStep naming r r' (represent e v) (represent e' v) := by
  refine get_bind fun s s' h => ?_
  rw [h.graph, acts.serialize]
  refine bind (act _) fun result => ?_
  cases result with
  | ok representation =>
    refine get_bind fun s s' h => ?_
    dsimp only
    rw [h.graph]
    split
    · exact pure _
    · exact throw_failure twin acts.tag (.inl rfl) _ _
  | error fault => exact throw_failure twin acts.tag (.inl rfl) _ _

omit twin in
theorem encodeItem {write write' : Value → Step Tree}
    (hw : ∀ v, InStep naming r r' (write v) (write' v)) (item : Option Value) :
    InStep naming r r' (encodeItem write item) (encodeItem write' item) := by
  cases item with
  | none => exact pure _
  | some v =>
    refine get_bind fun s s' h => ?_
    rw [h.graph]
    split
    · exact pure _
    · exact hw v

theorem serializeAt (fuel depth : Nat) (v : Value) :
    InStep naming r r' (serializeAt fuel depth v) (serializeAt fuel depth v) := by
  induction fuel generalizing depth v with
  | zero => exact throw _
  | succ fuel ih =>
    refine bind (checkDepth twin depth) fun _ => dispatch_bind twin v fun e e' acts => ?_
    refine bind (represent twin acts v) fun representation => get_bind fun s s' h => ?_
    dsimp only
    rw [h.graph, acts.tag]
    split
    · exact pure _
    · exact bind (mapItems (encodeItem (ih (depth + 1))) _ _ _) fun slots => pure _

theorem serialize (v : Value) : InStep naming r r' (serialize v) (serialize v) := by
  refine get_bind fun s s' h => ?_
  rw [h.stack]
  exact serializeAt twin _ 0 v

end Steps

theorem enter_bind (parallel : Parallel naming r r') (tag : String) (depth : Nat)
    {f f' : Entry → Step α}
    (hf : ∀ e e', e.ActsAs e' → naming e.tag e.typeName e'.typeName →
      InStep naming r r' (f e) (f' e')) :
    InStep naming r r' (enter tag depth >>= f) (enter tag depth >>= f') := by
  simp only [enter, bind_assoc]
  refine bind (checkDepth parallel.toTwin depth) fun _ => get_bind fun s s' h => ?_
  have entries := h.entryForTag? parallel tag
  cases found : s.registry.entryForTag? tag <;> cases found' : s'.registry.entryForTag? tag <;>
    rw [found, found'] at entries <;> cases entries
  · exact throw _
  next same => exact hf _ _ same.1 same.2

theorem rebuild (parallel : Parallel naming r r') {e e' : Entry} (acts : e.ActsAs e')
    (names : naming e.tag e.typeName e'.typeName) (representation : Value) :
    InStep naming r r' (rebuild e representation) (rebuild e' representation) := by
  rw [Registry.rebuild, Registry.rebuild, acts.deserialize]
  refine bind (act _) fun result => ?_
  cases result with
  | ok v => exact pure v
  | error fault => exact throw_failure parallel.toTwin acts.tag (.inr names) _ _

theorem newObject (o : Object) : InStep naming r r' (newObject o) (newObject o) := by
  refine get_bind fun s s' h => ?_
  rw [h.graph]
  exact bind (set (h.withGraph _)) fun _ => pure _

theorem decodeItem {read read' : String → Value → Step Value}
    (hr : ∀ tag data, InStep naming r r' (read tag data) (read' tag data)) (item : Option Value) :
    InStep naming r r' (decodeItem read item) (decodeItem read' item) := by
  cases item with
  | none => exact pure none
  | some v =>
    refine get_bind fun s s' h => ?_
    rw [h.graph]
    split
    · exact pure _
    · exact bind (hr _ _) fun v => pure (some v)
    · exact throw _

theorem input {read read' : String → Value → Step Value}
    (hr : ∀ tag data, InStep naming r r' (read tag data) (read' tag data)) (data : Value) :
    InStep naming r r' (input read data) (input read' data) := by
  refine get_bind fun s s' h => ?_
  dsimp only
  rw [h.graph]
  split
  · exact pure data
  · split
    · exact bind (mapItems (decodeItem hr) data 0 _) fun items => newObject _
    · exact newObject _
    · exact throw _

theorem deserializeAt (parallel : Parallel naming r r') (fuel depth : Nat) (tag : String)
    (data : Value) :
    InStep naming r r' (deserializeAt fuel depth tag data) (deserializeAt fuel depth tag data) := by
  induction fuel generalizing depth tag data with
  | zero => exact throw _
  | succ fuel ih =>
    exact enter_bind parallel tag depth fun e e' acts names =>
      bind (input (ih (depth + 1)) data) fun made => rebuild parallel acts names made

theorem deserialize (parallel : Parallel naming r r') (tag : String) (data : Value) :
    InStep naming r r' (deserialize tag data) (deserialize tag data) := by
  refine get_bind fun s s' h => ?_
  rw [h.stack]
  exact deserializeAt parallel _ 0 tag data

theorem working {x x' : Step α} (h : InStep naming r r' x x') (left : r.Remembers)
    (right : r'.Remembers) (stack : Nat) (graph : Graph)
    (answer : Except Fault α → Graph → Answer) :
    ∃ result result' after, (r.working stack graph x answer).answer = answer result after ∧
      (r'.working stack graph x' answer).answer = answer result' after ∧
      SameResult naming result result' ∧
      List.Forall₂ (Notice.SameBut naming) (r.working stack graph x answer).notices
        (r'.working stack graph x' answer).notices := by
  obtain ⟨same, abreast⟩ := h ⟨r, graph, stack, []⟩ ⟨r', graph, stack, []⟩
    ⟨left.alike, right.alike, rfl, rfl, .nil⟩
  refine ⟨_, _, (x'.run ⟨r', graph, stack, []⟩).2.graph, ?_, rfl, same, abreast.notices⟩
  exact congrArg (answer (x.run ⟨r, graph, stack, []⟩).1) abreast.graph

theorem working_eq {x x' : Step α} (h : InStep (fun _ => Eq) r r' x x') (left : r.Remembers)
    (right : r'.Remembers) (stack : Nat) (graph : Graph)
    (answer : Except Fault α → Graph → Answer) :
    (r.working stack graph x answer).answer = (r'.working stack graph x' answer).answer ∧
      (r.working stack graph x answer).notices = (r'.working stack graph x' answer).notices := by
  obtain ⟨result, result', after, asked, asked', same, notices⟩ :=
    h.working left right stack graph answer
  exact ⟨by rw [asked, asked', same.eq], Notice.SameBut.eq_of_forall₂ notices⟩

end InStep

end Registry

end Marshal
