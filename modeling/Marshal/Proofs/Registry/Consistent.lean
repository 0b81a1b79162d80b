import Mathlib.Tactic.SplitIfs
import Marshal.Proofs.Registry.Bind

namespace Marshal.Registry

/-- The two indexes of a registry are inverse to each other, and the reserved tag is in neither. -/
structure Consistent (r : Registry) : Prop where
  distinctClasses : r.byClass.keys.Nodup
  distinctTags : r.byTag.keys.Nodup
  ofClass : ∀ c e, r.byClass.find? c = some e →
    e.prototype? = some c ∧ r.byTag.find? e.tag = some e
  ofTag : ∀ t e, r.byTag.find? t = some e →
    e.tag = t ∧ ∃ c, e.prototype? = some c ∧ r.byClass.find? c = some e
  unreserved : r.byTag.find? fallbackTag = none

theorem consistent_new (options : Options) : (new options).Consistent where
  distinctClasses := List.nodup_nil
  distinctTags := List.nodup_nil
  ofClass := by intro c e h; cases h
  ofTag := by intro t e h; cases h
  unreserved := rfl

namespace Consistent

variable {r : Registry} (h : r.Consistent)

include h

/-- The holder of a tag counts as another type's exactly when it is not the entry of the class. So
comparing classes tells the same entries apart as comparing entries would. -/
theorem rival?_eq_some_iff {c : Class} {tag : String} {holder : Entry} :
    r.rival? c tag = some holder ↔
      r.byTag.find? tag = some holder ∧ r.byClass.find? c ≠ some holder := by
  rw [rival?, Option.filter_eq_some_iff]
  refine and_congr_right fun held => ?_
  obtain ⟨-, k, hk, found⟩ := h.ofTag _ _ held
  rw [hk, bne_iff_ne]
  constructor
  · intro other same
    exact other ((h.ofClass _ _ same).1 ▸ hk).symm
  · intro other same
    rw [Option.some.injEq] at same
    exact other (same ▸ found)

/-- The class of an entry has lost its tag to a new entry exactly when the tag is the new one's. -/
theorem loser_iff {c k : Class} {tag : String} {e : Entry} (found : r.byClass.find? k = some e)
    (other : k ≠ c) : (r.rival? c tag).bind Entry.prototype? = some k ↔ e.tag = tag := by
  obtain ⟨hk, held⟩ := h.ofClass _ _ found
  rw [Option.bind_eq_some_iff]
  constructor
  · rintro ⟨rival, hr, hk'⟩
    obtain ⟨held', -⟩ := h.rival?_eq_some_iff.1 hr
    obtain ⟨ht, k', hk'', found'⟩ := h.ofTag _ _ held'
    rw [hk'', Option.some.injEq] at hk'
    rw [hk', found, Option.some.injEq] at found'
    rw [found', ht]
  · rintro rfl
    refine ⟨e, h.rival?_eq_some_iff.2 ⟨held, fun there => other ?_⟩, hk⟩
    simpa [hk] using (h.ofClass _ _ there).1

theorem former_iff {c k : Class} {t : String} {e : Entry} (held : r.byTag.find? t = some e)
    (hk : e.prototype? = some k) : (r.byClass.find? c).map Entry.tag = some t ↔ k = c := by
  obtain ⟨ht, k', hk', found⟩ := h.ofTag _ _ held
  rw [hk, Option.some.injEq] at hk'
  subst hk'
  constructor
  · intro former
    obtain ⟨old, there, same⟩ := Option.map_eq_some_iff.1 former
    obtain ⟨hc, held'⟩ := h.ofClass _ _ there
    rw [same, held, Option.some.injEq] at held'
    rw [held', hc, Option.some.injEq] at hk
    exact hk.symm
  · rintro rfl
    rw [found, Option.map_some, ht]

/-- A binding keeps the indexes inverse, whichever of the two places of the new entry were taken. -/
theorem rebind {c : Class} {e : Entry} (own : e.prototype? = some c) (free : e.tag ≠ fallbackTag) :
    (r.rebind c e).Consistent where
  distinctClasses := by
    apply Assoc.nodup_keys_set
    rw [byClass_dropTag]
    cases (r.rival? c e.tag).bind Entry.prototype? with
    | none => exact h.distinctClasses
    | some k => exact Assoc.nodup_keys_erase h.distinctClasses k
  distinctTags := by
    apply Assoc.nodup_keys_set
    cases ((r.byClass.find? c).map Entry.tag).filter (· != e.tag) with
    | none => exact byTag_dropClass r _ ▸ h.distinctTags
    | some t => exact Assoc.nodup_keys_erase (byTag_dropClass r _ ▸ h.distinctTags) t
  ofClass := by
    intro k e' found
    rw [find?_byClass_rebind] at found
    split_ifs at found with same loser
    · rw [Option.some.injEq] at found
      subst same found
      exact ⟨own, by rw [find?_byTag_rebind, if_pos rfl]⟩
    · obtain ⟨hk, held⟩ := h.ofClass _ _ found
      have notTag := mt (h.loser_iff found same).2 loser
      have notFormer := mt (h.former_iff held hk).1 same
      exact ⟨hk, by rw [find?_byTag_rebind, if_neg notTag, if_neg notFormer, held]⟩
  ofTag := by
    intro t e' held
    rw [find?_byTag_rebind] at held
    split_ifs at held with same former
    · rw [Option.some.injEq] at held
      subst same held
      exact ⟨rfl, c, own, by rw [find?_byClass_rebind, if_pos rfl]⟩
    · obtain ⟨ht, k, hk, found⟩ := h.ofTag _ _ held
      have notClass := mt (h.former_iff held hk).2 former
      have notLoser := mt (h.loser_iff found notClass).1 (ht ▸ same)
      exact ⟨ht, k, hk, by rw [find?_byClass_rebind, if_neg notClass, if_neg notLoser, found]⟩
  unreserved := by
    rw [find?_byTag_rebind, if_neg free.symm]
    split
    next => rfl
    next => exact h.unreserved

end Consistent

theorem resolved_adopt (copy : Registry) (e : Entry) : (copy.adopt e).resolved = copy.resolved := by
  unfold adopt
  dsimp only
  split <;> rfl

theorem resolved_foldl_adopt (copy : Registry) (entries : List Entry) :
    (entries.foldl adopt copy).resolved = copy.resolved := by
  induction entries generalizing copy with
  | nil => rfl
  | cons e rest ih => rw [List.foldl_cons, ih, resolved_adopt]

theorem resolved_copyWith (r : Registry) (overrides : Options) :
    (r.copyWith overrides).resolved = [] :=
  resolved_foldl_adopt _ _

theorem adopt_eq_rebind {copy : Registry} {e : Entry} {c : Class} (own : e.prototype? = some c)
    (blank : copy.resolved = []) (freeTag : copy.byTag.find? e.tag = none)
    (freeClass : copy.byClass.find? c = none) :
    copy.adopt e = copy.rebind c (e.withFallback copy.fallback) := by
  rw [rebind_of_free freeClass (by rwa [Entry.tag_withFallback]), adopt,
    Entry.prototype?_withFallback, own, store, ← blank]

/-- The places of the entries are free and differ. -/
structure Admits (copy : Registry) (entries : List Entry) : Prop where
  blank : copy.resolved = []
  free : ∀ e ∈ entries, e.tag ≠ fallbackTag ∧ copy.byTag.find? e.tag = none ∧
    ∃ c, e.prototype? = some c ∧ copy.byClass.find? c = none
  tags : (entries.map Entry.tag).Nodup
  classes : (entries.map Entry.prototype?).Nodup

theorem Admits.tail {copy : Registry} {e : Entry} {rest : List Entry}
    (admits : copy.Admits (e :: rest)) : (copy.adopt e).Admits rest := by
  obtain ⟨-, freeTag, c, own, freeClass⟩ := admits.free e List.mem_cons_self
  have tags := admits.tags
  have classes := admits.classes
  rw [List.map_cons, List.nodup_cons] at tags classes
  rw [adopt_eq_rebind own admits.blank freeTag freeClass]
  refine ⟨rfl, ?_, tags.2, classes.2⟩
  intro e' mem
  obtain ⟨unreserved, freeTag', c', own', freeClass'⟩ := admits.free e' (List.mem_cons_of_mem e mem)
  have otherTag : e'.tag ≠ e.tag := fun same => tags.1 (same ▸ List.mem_map_of_mem mem)
  have otherClass : c' ≠ c := by
    rintro rfl
    exact classes.1 (own.trans own'.symm ▸ List.mem_map_of_mem mem)
  refine ⟨unreserved, ?_, c', own', ?_⟩
  · rw [find?_byTag_rebind, Entry.tag_withFallback, if_neg otherTag, freeTag', ite_self]
  · rw [find?_byClass_rebind, if_neg otherClass, freeClass', ite_self]

theorem Consistent.foldl_adopt {copy : Registry} (h : copy.Consistent) {entries : List Entry}
    (admits : copy.Admits entries) : (entries.foldl adopt copy).Consistent := by
  induction entries generalizing copy with
  | nil => exact h
  | cons e rest ih =>
    obtain ⟨unreserved, freeTag, c, own, freeClass⟩ := admits.free e List.mem_cons_self
    rw [List.foldl_cons]
    refine ih ?_ admits.tail
    rw [adopt_eq_rebind own admits.blank freeTag freeClass]
    apply h.rebind
    · rw [Entry.prototype?_withFallback, own]
    · rwa [Entry.tag_withFallback]

def inherit (r : Registry) (overrides : Options) : Options where
  name := some (overrides.name.getD (r.name ++ ":clone"))
  fallback := some (overrides.fallback.getD r.fallback)
  duplicateTags := some (overrides.duplicateTags.getD r.duplicateTags)
  maxDepth := some (overrides.maxDepth.getD r.maxDepth)

theorem copyWith_eq (r : Registry) (overrides : Options) :
    r.copyWith overrides = r.byTag.values.foldl adopt (new (r.inherit overrides)) := rfl

namespace Consistent

variable {r : Registry} (h : r.Consistent)

include h

theorem ne_fallbackTag {t : String} {e : Entry} (held : r.byTag.find? t = some e) :
    t ≠ fallbackTag := by
  rintro rfl
  rw [h.unreserved] at held
  cases held

theorem mem_byTag_iff {t : String} {e : Entry} : (t, e) ∈ r.byTag ↔ r.byTag.find? t = some e :=
  (Assoc.find?_eq_some_iff h.distinctTags).symm

theorem mem_byClass_iff {c : Class} {e : Entry} :
    (c, e) ∈ r.byClass ↔ r.byClass.find? c = some e :=
  (Assoc.find?_eq_some_iff h.distinctClasses).symm

theorem mem_byTag_values_iff {e : Entry} : e ∈ r.byTag.values ↔ r.byTag.find? e.tag = some e := by
  rw [Assoc.values, List.mem_map]
  constructor
  · rintro ⟨⟨t, e'⟩, mem, rfl⟩
    have held := h.mem_byTag_iff.1 mem
    rwa [(h.ofTag _ _ held).1]
  · exact fun held => ⟨(e.tag, e), h.mem_byTag_iff.2 held, rfl⟩

theorem map_tag_values : r.byTag.values.map Entry.tag = r.byTag.keys := by
  rw [Assoc.values, Assoc.keys, List.map_map]
  apply List.map_congr_left
  rintro ⟨t, e⟩ mem
  exact (h.ofTag _ _ (h.mem_byTag_iff.1 mem)).1

theorem eq_of_prototype? {e e' : Entry} (mem : e ∈ r.byTag.values) (mem' : e' ∈ r.byTag.values)
    (same : e.prototype? = e'.prototype?) : e = e' := by
  obtain ⟨-, c, hc, found⟩ := h.ofTag _ _ (h.mem_byTag_values_iff.1 mem)
  obtain ⟨-, c', hc', found'⟩ := h.ofTag _ _ (h.mem_byTag_values_iff.1 mem')
  rw [hc, hc', Option.some.injEq] at same
  rw [same, found', Option.some.injEq] at found
  exact found.symm

theorem nodup_map_prototype? : (r.byTag.values.map Entry.prototype?).Nodup := by
  have tags : (r.byTag.values.map Entry.tag).Nodup := h.map_tag_values ▸ h.distinctTags
  rw [List.Nodup, List.pairwise_map] at tags ⊢
  refine tags.imp_of_mem fun mem mem' differ same => differ ?_
  rw [h.eq_of_prototype? mem mem' same]

theorem admits_values (options : Options) : (new options).Admits r.byTag.values where
  blank := rfl
  free := by
    intro e mem
    have held := h.mem_byTag_values_iff.1 mem
    obtain ⟨-, c, hc, -⟩ := h.ofTag _ _ held
    exact ⟨h.ne_fallbackTag held, rfl, c, hc, rfl⟩
  tags := h.map_tag_values ▸ h.distinctTags
  classes := h.nodup_map_prototype?

theorem copyWith (overrides : Options) : (r.copyWith overrides).Consistent :=
  (consistent_new _).foldl_adopt (h.admits_values (r.inherit overrides))

end Consistent

end Marshal.Registry
