import Marshal.Proofs.Registry.Consistent
import Marshal.Proofs.Registry.Transparent

namespace Marshal.Registry

open Marshal.Effect

theorem Alike.working {α : Type} {r r' : Registry} (h : r.Alike r') (stack : Nat) (graph : Graph)
    {step : Step α} (blind : Related r.forget step step)
    (answer : Except Fault α → Graph → Answer) :
    (r.working stack graph step answer).answer = (r'.working stack graph step answer).answer ∧
      (r.working stack graph step answer).notices = (r'.working stack graph step answer).notices ∧
      (r.working stack graph step answer).registry.Alike
        (r'.working stack graph step answer).registry ∧
      (r.working stack graph step answer).registry.forget = r.forget := by
  obtain ⟨same, agree⟩ := blind ⟨r, graph, stack, []⟩ ⟨r', graph, stack, []⟩ ⟨rfl, h, rfl, rfl, rfl⟩
  refine ⟨?_, agree.notices, agree.alike, agree.registry⟩
  exact (congr (congrArg answer same) agree.graph :)

theorem Alike.binding {r r' : Registry} (h : r.Alike r') (type : TypeRef) (tag : String)
    (codec : Codec) (pickled : Bool) :
    (r.binding (r.bind type tag codec pickled)).answer =
        (r'.binding (r'.bind type tag codec pickled)).answer ∧
      (r.binding (r.bind type tag codec pickled)).notices =
        (r'.binding (r'.bind type tag codec pickled)).notices ∧
      (r.binding (r.bind type tag codec pickled)).registry.Alike
        (r'.binding (r'.bind type tag codec pickled)).registry := by
  unfold Registry.binding
  rcases h.bind type tag codec pickled [] with
    ⟨fault, after, hr, hr'⟩ | ⟨bound, bound', after, hr, hr', alike⟩
  · rw [hr, hr']
    exact ⟨rfl, rfl, h⟩
  · rw [hr, hr']
    exact ⟨rfl, rfl, alike⟩

theorem Alike.perform {r r' : Registry} (h : r.Alike r') (call : Call) :
    (r.perform call).answer = (r'.perform call).answer ∧
      (r.perform call).notices = (r'.perform call).notices ∧
      (r.perform call).registry.Alike (r'.perform call).registry := by
  cases call with
  | register type tag codec => exact h.binding type tag codec false
  | registerPickled type tag =>
    have fallback : r.fallback = r'.fallback := (congrArg Registry.fallback h.forget_eq :)
    have pickled : r'.perform (.registerPickled type tag) =
        r'.binding (r'.bind type tag (Pickle.codec r.fallback (some type)) true) := by
      rw [fallback]
      rfl
    rw [pickled]
    exact h.binding type tag (Pickle.codec r.fallback (some type)) true
  | copy overrides =>
    obtain ⟨memory, rfl⟩ := eq_of_forget_eq h.forget_eq
    exact ⟨rfl, rfl, h⟩
  | clone overrides =>
    obtain ⟨memory, rfl⟩ := eq_of_forget_eq h.forget_eq
    exact ⟨rfl, rfl, (remembers_of_blank (resolved_copyWith r overrides)).alike⟩
  | resolve graph v =>
    obtain ⟨same, alike⟩ := h.resolve graph v
    exact ⟨congrArg Answer.entry same, rfl, alike⟩
  | serialize stack graph v =>
    obtain ⟨answer, notices, alike, -⟩ := h.working stack graph (.serialize v) .tree
    exact ⟨answer, notices, alike⟩
  | deserialize stack graph tag data =>
    obtain ⟨answer, notices, alike, -⟩ := h.working stack graph (.deserialize tag data) .value
    exact ⟨answer, notices, alike⟩

theorem Remembers.perform_alike {r : Registry} (h : r.Remembers) {call : Call}
    (keeps : call.rebinds = false) : (r.perform call).registry.Alike r := by
  refine ⟨?_, (h.alike.perform call).2.2.left, h⟩
  cases call with
  | register | registerPickled | clone => cases keeps
  | copy overrides => rfl
  | resolve graph v => exact forget_resolve r graph v
  | serialize stack graph v => exact (h.alike.working stack graph (.serialize v) .tree).2.2.2
  | deserialize stack graph tag data =>
    exact (h.alike.working stack graph (.deserialize tag data) .value).2.2.2

theorem Consistent.of_forget_eq {r r' : Registry} (h : r.Consistent)
    (same : r'.forget = r.forget) : r'.Consistent := by
  obtain ⟨memory, rfl⟩ := eq_of_forget_eq same.symm
  exact ⟨h.distinctClasses, h.distinctTags, h.ofClass, h.ofTag, h.unreserved⟩

theorem Consistent.binding {r : Registry} (h : r.Consistent) (type : TypeRef) (tag : String)
    (codec : Codec) (pickled : Bool) :
    (r.binding (r.bind type tag codec pickled)).registry.Consistent := by
  unfold Registry.binding
  rcases r.bind_cases type tag codec pickled [] with
    ⟨fault, after, hr⟩ | ⟨after, hr⟩ | ⟨c, after, own, free, hr⟩
  · rw [hr]
    exact h
  · rw [hr]
    exact h
  · rw [hr]
    exact h.rebind own free

/-- What every call keeps: the indexes are inverse and the memory is sound. -/
structure Sound (r : Registry) : Prop where
  consistent : r.Consistent
  remembers : r.Remembers

theorem Sound.perform {r : Registry} (h : r.Sound) (call : Call) :
    (r.perform call).registry.Sound := by
  refine ⟨?_, (h.remembers.alike.perform call).2.2.left⟩
  cases hc : call.rebinds with
  | false => exact h.consistent.of_forget_eq (h.remembers.perform_alike hc).forget_eq
  | true =>
    cases call with
    | register type tag codec => exact h.consistent.binding type tag codec false
    | registerPickled type tag => exact h.consistent.binding type tag _ true
    | clone overrides => exact h.consistent.copyWith overrides
    | copy | resolve | serialize | deserialize => cases hc

theorem sound_new (options : Options) : (new options).Sound :=
  ⟨consistent_new options, remembers_of_blank rfl⟩

theorem Sound.run {r : Registry} (h : r.Sound) (calls : List Call) : (r.run calls).Sound := by
  induction calls generalizing r with
  | nil => exact h
  | cons call rest ih => exact ih (h.perform call)

theorem Alike.run_filter {r r' : Registry} (h : r.Alike r') (calls : List Call) :
    (r.run calls).Alike (r'.run (calls.filter Call.rebinds)) := by
  induction calls generalizing r r' with
  | nil => exact h
  | cons call rest ih =>
    cases hc : call.rebinds with
    | true =>
      rw [List.filter_cons_of_pos hc]
      exact ih (h.perform call).2.2
    | false =>
      rw [List.filter_cons_of_neg (by rw [hc]; exact Bool.false_ne_true)]
      exact ih ((h.left.perform_alike hc).trans h)

theorem Remembers.run_alike {r : Registry} (h : r.Remembers) {calls : List Call}
    (unbound : ∀ call ∈ calls, call.rebinds = false) : (r.run calls).Alike r := by
  have alike := h.alike.run_filter calls
  have none : calls.filter Call.rebinds = [] := by
    rw [List.filter_eq_nil_iff]
    intro call mem rebinds
    rw [unbound call mem] at rebinds
    cases rebinds
  rwa [none] at alike

/-- Each index has exactly the entries of the other, every entry stands under its own class and its
own tag, and no class and no tag has two. -/
structure OneToOne (r : Registry) : Prop where
  foundByClass : ∀ e ∈ r.byTag.values, ∃ c, e.prototype? = some c ∧ r.byClass.find? c = some e
  foundByTag : ∀ e ∈ r.byClass.values, r.byTag.find? e.tag = some e
  ownClass : ∀ c e, (c, e) ∈ r.byClass → e.prototype? = some c
  ownTag : ∀ t e, (t, e) ∈ r.byTag → e.tag = t
  oneTag : ∀ e ∈ r.byTag.values, ∀ e' ∈ r.byTag.values, e.prototype? = e'.prototype? →
    e.tag = e'.tag
  oneType : ∀ e ∈ r.byClass.values, ∀ e' ∈ r.byClass.values, e.tag = e'.tag →
    e.prototype? = e'.prototype?
  distinctClasses : r.byClass.keys.Nodup
  distinctTags : r.byTag.keys.Nodup
  unreserved : fallbackTag ∉ r.byTag.keys

theorem Consistent.foundByTag {r : Registry} (h : r.Consistent) {e : Entry}
    (mem : e ∈ r.byClass.values) : r.byTag.find? e.tag = some e := by
  obtain ⟨⟨c, e'⟩, entry, rfl⟩ := List.mem_map.1 mem
  exact (h.ofClass _ _ (h.mem_byClass_iff.1 entry)).2

theorem Consistent.oneToOne {r : Registry} (h : r.Consistent) : r.OneToOne where
  foundByClass := fun e mem => (h.ofTag _ _ (h.mem_byTag_values_iff.1 mem)).2
  foundByTag := fun e mem => h.foundByTag mem
  ownClass := fun c e mem => (h.ofClass _ _ (h.mem_byClass_iff.1 mem)).1
  ownTag := fun t e mem => (h.ofTag _ _ (h.mem_byTag_iff.1 mem)).1
  oneTag := fun e mem e' mem' same => congrArg Entry.tag (h.eq_of_prototype? mem mem' same)
  oneType := by
    intro e mem e' mem' same
    have held := h.foundByTag mem
    rw [same, h.foundByTag mem', Option.some.injEq] at held
    rw [held]
  distinctClasses := h.distinctClasses
  distinctTags := h.distinctTags
  unreserved := by
    rw [Assoc.mem_keys_iff_isSome, h.unreserved]
    exact Bool.false_ne_true

/-- After any calls, failed ones included, the two indexes of a registry are inverse to each
other. -/
theorem oneToOne_run (options : Options) (calls : List Call) :
    ((new options).run calls).OneToOne :=
  ((sound_new options).run calls).consistent.oneToOne

/-- A value dispatches to the entry of its nearest bound ancestor, whatever was met before. So calls
that bind nothing can be put in or left out anywhere without a change to what a later call returns
and reports. -/
theorem answers_of_same_bindings (options : Options) {calls calls' : List Call}
    (same : calls.filter Call.rebinds = calls'.filter Call.rebinds) :
    (∀ g v, ((new options).run calls).DispatchesTo g v (((new options).run calls).resolve g v).1) ∧
      ∀ call,
        (((new options).run calls).perform call).answer =
            (((new options).run calls').perform call).answer ∧
          (((new options).run calls).perform call).notices =
            (((new options).run calls').perform call).notices := by
  have start := (sound_new options).remembers.alike
  have alike : ((new options).run calls).Alike ((new options).run calls') := by
    have left := start.run_filter calls
    rw [same] at left
    exact left.trans (start.run_filter calls').symm
  refine ⟨fun g v => dispatchesTo_iff.2 (alike.left.resolve_eq g v), fun call => ?_⟩
  obtain ⟨answer, notices, -⟩ := alike.perform call
  exact ⟨answer, notices⟩

namespace Sample

def shape : Class := .top "Shape"

def square : Class := .sub ⟨"Square", [], none⟩ shape

def plain : Codec := ⟨⟨some "plain", pure⟩, ⟨some "plain", pure⟩⟩

def squares : Graph := ⟨#[{ kind := some square }]⟩

def bindings : List Call :=
  [.register ⟨"Shape", some shape⟩ "Shape" plain, .register ⟨"Square", some square⟩ "Square" plain]

def early : List Call :=
  [.register ⟨"Shape", some shape⟩ "Shape" plain, .resolve squares (.object 0),
    .register ⟨"Square", some square⟩ "Square" plain]

/-- A square that was met before its class was bound dispatches to the new binding all the same. -/
theorem answers_early :
    early.filter Call.rebinds = bindings.filter Call.rebinds ∧
      (((new {}).run early).resolve squares (.object 0)).1.tag = "Square" ∧
      (∀ g v, ((new {}).run early).DispatchesTo g v (((new {}).run early).resolve g v).1) ∧
      ∀ call,
        (((new {}).run early).perform call).answer =
            (((new {}).run bindings).perform call).answer ∧
          (((new {}).run early).perform call).notices =
            (((new {}).run bindings).perform call).notices :=
  ⟨rfl, by decide, answers_of_same_bindings {} rfl⟩

end Sample

end Marshal.Registry
