import Marshal.Proofs.Registry.Parallel

namespace Marshal.Registry

open Marshal.Effect

/-- Scenes that differ at most in which classes the registry met; without its memory it is `r`. -/
structure Agree (r : Registry) (s s' : Scene) : Prop where
  registry : s.registry.forget = r
  alike : s.registry.Alike s'.registry
  graph : s.graph = s'.graph
  stack : s.stack = s'.stack
  notices : s.notices = s'.notices

variable {r : Registry} {α : Type}

/-- Two steps that cannot be told apart from scenes that agree. -/
def Related (r : Registry) (x x' : Step α) : Prop :=
  ∀ s s', Agree r s s' → (x.run s).1 = (x'.run s').1 ∧ Agree r (x.run s).2 (x'.run s').2

theorem twin_refl (r : Registry) : Twin r r := ⟨rfl, rfl, fun _ _ => .refl _⟩

theorem parallel_refl (r : Registry) : Parallel (fun _ => Eq) r r where
  toTwin := twin_refl r
  entryForTag? := by
    intro tag
    cases r.entryForTag? tag with
    | none => exact .none
    | some e => exact .some ⟨.refl e, rfl⟩

namespace Related

/-- A step in which parallel runs stay abreast does not show which classes were met. -/
theorem of_inStep {x : Step α} (h : ∀ r₀, InStep (fun _ => Eq) r₀ r₀ x x) : Related r x x := by
  intro s s' agree
  have start : Abreast (fun _ => Eq) s.registry s.registry s s' :=
    ⟨agree.alike.left.alike, agree.alike.symm, agree.graph, agree.stack,
      agree.notices ▸ List.forall₂_same.2 fun n _ => .same n⟩
  obtain ⟨same, abreast⟩ := h s.registry s s' start
  exact ⟨same.eq, abreast.left.forget_eq.trans agree.registry,
    abreast.left.trans abreast.right.symm, abreast.graph, abreast.stack,
    Notice.SameBut.eq_of_forall₂ abreast.notices⟩

theorem represent (e : Entry) (v : Value) : Related r (represent e v) (represent e v) :=
  of_inStep fun r₀ => .represent (twin_refl r₀) (.refl e) v

theorem serialize (v : Value) : Related r (serialize v) (serialize v) :=
  of_inStep fun r₀ => .serialize (twin_refl r₀) v

theorem deserialize (tag : String) (data : Value) :
    Related r (deserialize tag data) (deserialize tag data) :=
  of_inStep fun r₀ => .deserialize (parallel_refl r₀) tag data

theorem dispatch (v : Value) : Related r (dispatch v) (dispatch v) := by
  intro s s' agree
  obtain ⟨same, alike⟩ := agree.alike.resolve s.graph v
  have forgotten := (forget_resolve s.registry s.graph v).trans agree.registry
  change Except.ok _ = Except.ok (s'.registry.resolve s'.graph v).1 ∧ Agree r _
    { s' with registry := (s'.registry.resolve s'.graph v).2 }
  rw [← agree.graph]
  exact ⟨congrArg Except.ok same, forgotten, alike, rfl, agree.stack, agree.notices⟩

theorem keeps {r' : Registry} {x : Step α} {result : Except Fault α} {s s' : Scene}
    (h : Related r'.forget x x) (alike : s.registry.Alike r') (run : x.run s = (result, s')) :
    s'.registry.Alike r' := by
  obtain ⟨-, agree⟩ := h s s ⟨alike.forget_eq, alike.left.alike, rfl, rfl, rfl⟩
  rw [run] at agree
  exact ⟨agree.registry, agree.alike.left, alike.right⟩

end Related

end Marshal.Registry
