import Marshal.Proofs.Registry.Bound

namespace Marshal

namespace Registry

open Marshal.Effect

/-- Calls that register different classes under different tags. No copy takes the place of the
registry, and no tag is the reserved one. -/
structure Unrivalled (calls : List Call) : Prop where
  registers : ∀ call ∈ calls, call.rebinds = true → call.registered? ≠ none
  owned : ∀ p ∈ calls.filterMap Call.registered?, p.1.prototype ≠ none
  unreserved : ∀ p ∈ calls.filterMap Call.registered?, p.2 ≠ fallbackTag
  classes : ((calls.filterMap Call.registered?).map (·.1.prototype)).Nodup
  tags : ((calls.filterMap Call.registered?).map (·.2)).Nodup

theorem run_registrations {r : Registry} {calls : List Call}
    (registers : ∀ call ∈ calls, call.registered? ≠ none)
    (admits : r.Admits (calls.filterMap (Call.binding? r.fallback))) :
    r.run calls = (calls.filterMap (Call.binding? r.fallback)).foldl adopt r := by
  induction calls generalizing r with
  | nil => rfl
  | cons call rest ih =>
    have known : (call.binding? r.fallback).isSome := by
      rw [isSome_binding?, Option.isSome_iff_ne_none]
      exact registers call List.mem_cons_self
    obtain ⟨e, he⟩ := Option.isSome_iff_exists.1 known
    obtain ⟨-, -, -, -, asked⟩ := registered?_of_binding? he
    rw [List.filterMap_cons_some he] at admits ⊢
    have first : (r.perform call).registry = r.adopt e := by
      rw [asked r rfl, binding, registerAgain_run admits]
    have fallback := (sameSettings_adopt r e).fallback
    rw [Registry.run, List.foldl_cons, List.foldl_cons, first, ← fallback]
    exact ih (fun call mem => registers call (List.mem_cons_of_mem _ mem))
      (fallback.symm ▸ admits.tail)

theorem map_tag_entries (calls : List Call) (fallback : ByteCodec) :
    (calls.filterMap (Call.binding? fallback)).map Entry.tag =
      (calls.filterMap Call.registered?).map (·.2) := by
  rw [List.map_filterMap, List.map_filterMap]
  congr 1
  funext call
  cases call <;> rfl

theorem map_prototype?_entries (calls : List Call) (fallback : ByteCodec) :
    (calls.filterMap (Call.binding? fallback)).map Entry.prototype? =
      (calls.filterMap Call.registered?).map (·.1.prototype) := by
  rw [List.map_filterMap, List.map_filterMap]
  congr 1
  funext call
  cases call <;> rfl

theorem filterMap_filter_rebinds (calls : List Call) :
    (calls.filter Call.rebinds).filterMap Call.registered? = calls.filterMap Call.registered? := by
  rw [List.filterMap_filter]
  congr 1
  funext call
  cases call <;> rfl

namespace Unrivalled

variable {calls calls' : List Call}

theorem filter (h : Unrivalled calls) : Unrivalled (calls.filter Call.rebinds) where
  registers := fun call mem => h.registers call (List.mem_of_mem_filter mem)
  owned := filterMap_filter_rebinds calls ▸ h.owned
  unreserved := filterMap_filter_rebinds calls ▸ h.unreserved
  classes := filterMap_filter_rebinds calls ▸ h.classes
  tags := filterMap_filter_rebinds calls ▸ h.tags

theorem perm (h : Unrivalled calls) (perm : calls.Perm calls') : Unrivalled calls' where
  registers := fun call mem => h.registers call (perm.mem_iff.2 mem)
  owned := fun p mem => h.owned p ((perm.filterMap _).mem_iff.2 mem)
  unreserved := fun p mem => h.unreserved p ((perm.filterMap _).mem_iff.2 mem)
  classes := ((perm.filterMap _).map _).nodup_iff.1 h.classes
  tags := ((perm.filterMap _).map _).nodup_iff.1 h.tags

theorem admits (h : Unrivalled calls) (options : Options) :
    (new options).Admits (calls.filterMap (Call.binding? (new options).fallback)) where
  blank := rfl
  free := by
    intro e mem
    obtain ⟨call, asked, he⟩ := List.mem_filterMap.1 mem
    obtain ⟨type, typed, registered, -⟩ := registered?_of_binding? he
    have listed : (type, e.tag) ∈ calls.filterMap Call.registered? :=
      List.mem_filterMap.2 ⟨call, asked, registered⟩
    obtain ⟨c, proto⟩ := Option.ne_none_iff_exists'.1 (h.owned _ listed)
    exact ⟨h.unreserved _ listed, rfl, c, Option.bind_eq_some_iff.2 ⟨type, typed, proto⟩, rfl⟩
  tags := by
    rw [map_tag_entries]
    exact h.tags
  classes := by
    rw [map_prototype?_entries]
    exact h.classes

theorem byTag_run (h : Unrivalled calls) (options : Options)
    (binds : ∀ call ∈ calls, call.rebinds = true) :
    ((new options).run calls).byTag =
        (calls.filterMap (Call.binding? (new options).fallback)).map (fun e => (e.tag, e)) ∧
      (new options).SameSettings ((new options).run calls) ∧
      ((new options).run calls).name = (new options).name := by
  have registers : ∀ call ∈ calls, call.registered? ≠ none :=
    fun call mem => h.registers call mem (binds call mem)
  rw [run_registrations registers (h.admits options)]
  refine ⟨?_, sameSettings_foldl_adopt _ _, name_foldl_adopt _ _⟩
  rw [byTag_foldl_adopt (h.admits options)]
  apply List.map_congr_left
  intro e mem
  obtain ⟨call, -, he⟩ := List.mem_filterMap.1 mem
  obtain ⟨-, -, -, own, -⟩ := registered?_of_binding? he
  rw [own]

end Unrivalled

namespace Consistent

variable {r r' : Registry}

theorem find?_byClass_iff (h : r.Consistent) {c : Class} {e : Entry} :
    r.byClass.find? c = some e ↔ e.prototype? = some c ∧ (e.tag, e) ∈ r.byTag := by
  rw [h.mem_byTag_iff]
  constructor
  · exact h.ofClass c e
  · rintro ⟨own, held⟩
    obtain ⟨-, k, own', found⟩ := h.ofTag _ _ held
    rw [own, Option.some.injEq] at own'
    rwa [own']

/-- The order of the entries has no say in what a class or a tag leads to. -/
theorem find?_eq_of_perm (h : r.Consistent) (h' : r'.Consistent) (perm : r.byTag.Perm r'.byTag) :
    (∀ tag, r.byTag.find? tag = r'.byTag.find? tag) ∧
      ∀ c, r.byClass.find? c = r'.byClass.find? c := by
  constructor
  · intro tag
    ext e
    rw [← h.mem_byTag_iff, ← h'.mem_byTag_iff, perm.mem_iff]
  · intro c
    ext e
    rw [h.find?_byClass_iff, h'.find?_byClass_iff, perm.mem_iff]

end Consistent

theorem parallel_of_find?_eq {r r' : Registry} (name : r'.name = r.name)
    (settings : r.SameSettings r') (byTag : ∀ tag, r.byTag.find? tag = r'.byTag.find? tag)
    (byClass : ∀ c, r.byClass.find? c = r'.byClass.find? c) :
    r.entryFor = r'.entryFor ∧ Parallel (fun _ => Eq) r r' := by
  have fallback : r.fallbackEntry = r'.fallbackEntry := by
    rw [fallbackEntry, fallbackEntry, settings.fallback]
  have entries : r.entryFor = r'.entryFor := by
    funext g v
    unfold entryFor nearest
    simp only [byClass, fallback]
  refine ⟨entries, ⟨name.symm, settings.maxDepth.symm, fun g v => ?_⟩, fun tag => ?_⟩
  · rw [entries]
    exact .refl _
  · have same : r.entryForTag? tag = r'.entryForTag? tag := by
      rw [entryForTag?, entryForTag?, fallback, byTag]
    rw [same]
    exact (parallel_refl r').entryForTag? tag

theorem Unrivalled.bindings_run {calls : List Call} (h : Unrivalled calls) (options : Options) :
    ((new options).run calls).byTag =
        ((calls.filter Call.rebinds).filterMap (Call.binding? (new options).fallback)).map
          (fun e => (e.tag, e)) ∧
      (new options).SameSettings ((new options).run calls) ∧
      ((new options).run calls).name = (new options).name := by
  have alike := (sound_new options).remembers.alike.run_filter calls
  obtain ⟨memory, same⟩ := eq_of_forget_eq alike.symm.forget_eq
  obtain ⟨byTag, settings, name⟩ :=
    h.filter.byTag_run options fun call mem => (List.mem_filter.1 mem).2
  rw [same]
  exact ⟨byTag, ⟨settings.fallback, settings.duplicateTags, settings.maxDepth⟩, name⟩

theorem Unrivalled.tags_run {calls : List Call} (h : Unrivalled calls) (options : Options) :
    ((new options).run calls).tags = (calls.filterMap Call.registered?).map (·.2) := by
  rw [Registry.tags, (h.bindings_run options).1, Assoc.keys, List.map_map,
    ← filterMap_filter_rebinds calls, ← map_tag_entries _ (new options).fallback]
  rfl

theorem Unrivalled.of_rearranged {calls calls' : List Call} (h : Unrivalled calls)
    (rearranged : (calls.filter Call.rebinds).Perm (calls'.filter Call.rebinds)) :
    Unrivalled calls' := by
  have filtered := h.filter.perm rearranged
  have same := filterMap_filter_rebinds calls'
  exact ⟨fun call mem rebinds => filtered.registers call (List.mem_filter.2 ⟨mem, rebinds⟩) rebinds,
    same ▸ filtered.owned, same ▸ filtered.unreserved, same ▸ filtered.classes,
    same ▸ filtered.tags⟩

/-- The order in which different classes are registered under different tags, and what is done with
the registry in between, show in nothing but the order of the tags. -/
theorem order_of_registrations (options : Options) {calls calls' : List Call}
    (unrivalled : Unrivalled calls)
    (rearranged : (calls.filter Call.rebinds).Perm (calls'.filter Call.rebinds)) :
    (∀ g v, (((new options).run calls).resolve g v).1 =
        (((new options).run calls').resolve g v).1) ∧
      (∀ stack g v,
        (((new options).run calls).perform (.serialize stack g v)).answer =
            (((new options).run calls').perform (.serialize stack g v)).answer ∧
          (((new options).run calls).perform (.serialize stack g v)).notices =
            (((new options).run calls').perform (.serialize stack g v)).notices) ∧
      (∀ stack g tag data,
        (((new options).run calls).perform (.deserialize stack g tag data)).answer =
            (((new options).run calls').perform (.deserialize stack g tag data)).answer ∧
          (((new options).run calls).perform (.deserialize stack g tag data)).notices =
            (((new options).run calls').perform (.deserialize stack g tag data)).notices) ∧
      ((new options).run calls).typeForTag = ((new options).run calls').typeForTag ∧
      ((new options).run calls).tags = (calls.filterMap Call.registered?).map (·.2) ∧
      ((new options).run calls').tags = (calls'.filterMap Call.registered?).map (·.2) ∧
      ((new options).run calls).tags.Perm ((new options).run calls').tags := by
  have unrivalled' := unrivalled.of_rearranged rearranged
  have sound := (sound_new options).run calls
  have sound' := (sound_new options).run calls'
  obtain ⟨byTag, settings, name⟩ := unrivalled.bindings_run options
  obtain ⟨byTag', settings', name'⟩ := unrivalled'.bindings_run options
  have perm : ((new options).run calls).byTag.Perm ((new options).run calls').byTag := by
    rw [byTag, byTag']
    exact (rearranged.filterMap _).map _
  -- a class has one entry and a tag one holder, so their order does not matter to look-ups
  obtain ⟨tagged, classed⟩ := sound.consistent.find?_eq_of_perm sound'.consistent perm
  obtain ⟨entries, parallel⟩ := parallel_of_find?_eq (name'.trans name.symm)
    ⟨settings'.fallback.trans settings.fallback.symm,
      settings'.duplicateTags.trans settings.duplicateTags.symm,
      settings'.maxDepth.trans settings.maxDepth.symm⟩ tagged classed
  refine ⟨fun g v => ?_, fun stack g v => ?_, fun stack g tag data => ?_, ?_,
    unrivalled.tags_run options, unrivalled'.tags_run options, perm.map Prod.fst⟩
  · rw [sound.remembers.resolve_eq, sound'.remembers.resolve_eq, entries]
  · exact (InStep.serialize parallel.toTwin v).working_eq sound.remembers sound'.remembers stack g
      .tree
  · exact (InStep.deserialize parallel tag data).working_eq sound.remembers sound'.remembers stack g
      .value
  · funext tag
    rw [typeForTag, typeForTag, tagged]

namespace Sample

/-- The class below is registered first, and is met before the class above it is there. -/
def belowFirst : List Call :=
  [.registerPickled ⟨"Square", some square⟩ "Square", .serialize 1 squares (.object 0),
    .register ⟨"Shape", some shape⟩ "Shape" plain]

def aboveFirst : List Call :=
  [.register ⟨"Shape", some shape⟩ "Shape" plain, .resolve squares (.object 0),
    .registerPickled ⟨"Square", some square⟩ "Square"]

theorem unrivalled_belowFirst : Unrivalled belowFirst where
  registers := by
    intro call mem rebinds
    simp only [belowFirst, List.mem_cons, List.not_mem_nil, or_false] at mem
    rcases mem with rfl | rfl | rfl
    · exact Option.some_ne_none _
    · cases rebinds
    · exact Option.some_ne_none _
  owned := by decide
  unreserved := by decide
  classes := by decide
  tags := by decide

theorem rearranged_aboveFirst :
    (belowFirst.filter Call.rebinds).Perm (aboveFirst.filter Call.rebinds) :=
  List.Perm.swap _ _ []

/-- A square goes to its own entry in both orders. -/
theorem squares_in_any_order :
    Unrivalled belowFirst ∧
      (belowFirst.filter Call.rebinds).Perm (aboveFirst.filter Call.rebinds) ∧
      ((new {}).run belowFirst).tags = ["Square", "Shape"] ∧
      ((new {}).run aboveFirst).tags = ["Shape", "Square"] ∧
      (((new {}).run belowFirst).resolve squares (.object 0)).1.tag = "Square" ∧
      (∀ g v, (((new {}).run belowFirst).resolve g v).1 =
        (((new {}).run aboveFirst).resolve g v).1) ∧
      ∀ stack g v,
        (((new {}).run belowFirst).perform (.serialize stack g v)).answer =
          (((new {}).run aboveFirst).perform (.serialize stack g v)).answer := by
  obtain ⟨resolved, serialized, -, -, tags, tags', -⟩ :=
    order_of_registrations {} unrivalled_belowFirst rearranged_aboveFirst
  refine ⟨unrivalled_belowFirst, rearranged_aboveFirst, tags, tags', ?_, resolved,
    fun stack g v => (serialized stack g v).1⟩
  rw [resolved]
  rfl

end Sample

end Registry

end Marshal
