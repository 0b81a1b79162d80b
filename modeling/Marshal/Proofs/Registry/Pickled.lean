import Marshal.Proofs.Registry.Bound

namespace Marshal

namespace Entry

def whole (e : Entry) (bytes : ByteCodec) : Entry :=
  { e with codec := Pickle.codec bytes e.type, pickled := true }

theorem tag_whole (e : Entry) (bytes : ByteCodec) : (e.whole bytes).tag = e.tag := rfl

theorem withFallback_of_pickled {e : Entry} (h : e.pickled = true) (bytes : ByteCodec) :
    e.withFallback bytes = e.whole bytes := by
  rw [withFallback, if_pos h, whole, ← h]

theorem withFallback_of_not_pickled {e : Entry} (h : e.pickled = false) (bytes : ByteCodec) :
    e.withFallback bytes = e := by
  rw [withFallback, h, if_neg Bool.false_ne_true]

theorem withFallback_whole (e : Entry) (bytes : ByteCodec) :
    (e.whole bytes).withFallback bytes = e.whole bytes :=
  withFallback_of_pickled rfl bytes

theorem withFallback_withFallback (e : Entry) (bytes : ByteCodec) :
    (e.withFallback bytes).withFallback bytes = e.withFallback bytes := by
  cases h : e.pickled with
  | true => rw [withFallback_of_pickled h, withFallback_whole]
  | false => rw [withFallback_of_not_pickled h, withFallback_of_not_pickled h]

end Entry

namespace Registry

open Marshal.Effect

/-- Whatever is reported, no tag is taken from a type and nothing is warned of. -/
def Quiet (notices : List Notice) : Prop :=
  ∀ n ∈ notices, (∀ text, n ≠ .line .warn text) ∧
    ∀ name tag type previous, n ≠ .entry ⟨name, .conflict tag type previous⟩

theorem quiet_nil : Quiet [] := by
  intro n mem
  cases mem

theorem Quiet.append {notices more : List Notice} (h : Quiet notices) (h' : Quiet more) :
    Quiet (notices ++ more) := by
  intro n mem
  rcases List.mem_append.1 mem with mem | mem
  · exact h n mem
  · exact h' n mem

theorem Quiet.report {notices : List Notice} (h : Quiet notices) {n : Notice}
    (line : ∀ text, n ≠ .line .warn text)
    (entry : ∀ name tag type previous, n ≠ .entry ⟨name, .conflict tag type previous⟩) :
    Quiet (notices ++ [n]) := by
  refine h.append fun n' mem => ?_
  rw [List.mem_singleton.1 mem]
  exact ⟨line, entry⟩

/-- The pickled entries use the byte codec of the registry. -/
def UsesOwnCodec (r : Registry) : Prop :=
  ∀ tag e, r.byTag.find? tag = some e → e.withFallback r.fallback = e

theorem usesOwnCodec_new (options : Options) : (new options).UsesOwnCodec := by
  intro tag e held
  cases held

theorem UsesOwnCodec.run {r : Registry} (h : r.UsesOwnCodec) (sound : r.Sound)
    (calls : List Call) : (r.run calls).UsesOwnCodec :=
  Bound.run (P := fun bytes e => e.withFallback bytes = e)
    (fun _ bytes e _ => e.withFallback_withFallback bytes) h sound
    fun _ _ _ _ asked => (registered?_of_binding? asked).choose_spec.2.2.1

theorem UsesOwnCodec.whole_eq {r : Registry} (h : r.UsesOwnCodec) {tag : String} {e : Entry}
    (held : r.byTag.find? tag = some e) (pickled : e.pickled = true) : e.whole r.fallback = e := by
  rw [← Entry.withFallback_of_pickled pickled, h tag e held]

/-- A registry derived from a base: with the same types under the same tags, in the same order, and
the entries of some tags pickled. -/
structure Pickles (base own : Registry) (pickled : List String) : Prop where
  consistent : own.Consistent
  settings : base.SameSettings own
  tags : own.tags = base.tags
  entries : ∀ tag, own.byTag.find? tag =
    (base.byTag.find? tag).map fun e => if tag ∈ pickled then e.whole base.fallback else e

theorem Consistent.pickles_self {base : Registry} (h : base.Consistent) : base.Pickles base [] :=
  ⟨h, ⟨rfl, rfl, rfl⟩, rfl, fun tag => by simp⟩

theorem Consistent.exists_entry {r : Registry} (h : r.Consistent) {tag : String}
    (mem : tag ∈ r.tags) :
    ∃ e c type, r.byTag.find? tag = some e ∧ e.tag = tag ∧ r.byClass.find? c = some e ∧
      e.type = some type ∧ type.prototype = some c := by
  obtain ⟨e, held⟩ := Option.isSome_iff_exists.1 ((Assoc.mem_keys_iff_isSome _ _).1 mem)
  obtain ⟨own, c, proto, found⟩ := h.ofTag _ _ held
  obtain ⟨type, typed, proto⟩ := Option.bind_eq_some_iff.1 proto
  exact ⟨e, c, type, held, own, found, typed, proto⟩

theorem typeForTag_of_notMem {r : Registry} {tag : String} (absent : tag ∉ r.tags) :
    r.typeForTag tag = none := by
  rw [typeForTag, Assoc.find?_of_notMem_keys absent]
  rfl

theorem Consistent.rival?_own {r : Registry} (h : r.Consistent) {c : Class} {e : Entry}
    (held : r.byTag.find? e.tag = some e) (found : r.byClass.find? c = some e) :
    r.rival? c e.tag = none := by
  rw [Option.eq_none_iff_forall_ne_some]
  intro holder rival
  obtain ⟨held', other⟩ := h.rival?_eq_some_iff.1 rival
  exact other (found.trans (held.symm.trans held'))

theorem Consistent.tags_rebind_own {r : Registry} (h : r.Consistent) {c : Class} {old e : Entry}
    (held : r.byTag.find? old.tag = some old) (found : r.byClass.find? c = some old)
    (same : e.tag = old.tag) : (r.rebind c e).tags = r.tags := by
  have kept : ((some old).map Entry.tag).filter (· != e.tag) = none := by simp [same]
  have known : e.tag ∈ r.byTag.keys := by
    rw [Assoc.mem_keys_iff_isSome, same, held]
    rfl
  rw [Registry.rebind, same, h.rival?_own held found, found, ← same, kept, tags, store,
    Option.bind_none]
  exact (Assoc.keys_set _ _ _).trans (if_pos known)

/-- Pickling a type under the tag it has succeeds without a conflict, and changes nothing if the
type is pickled already. -/
theorem Consistent.registerPickled_own_run {r : Registry} (h : r.Consistent) {c : Class} {e : Entry}
    {type : TypeRef} (held : r.byTag.find? e.tag = some e) (found : r.byClass.find? c = some e)
    (typed : e.type = some type) (proto : type.prototype = some c) (notices : List Notice) :
    (r.registerPickled type e.tag).run notices =
      if e.pickled then (.ok r, notices)
      else (.ok (r.rebind c (e.whole r.fallback)),
        notices ++ [.entry ⟨r.name, .replaced e.tag type.name⟩]) := by
  have unreserved := h.ne_fallbackTag held
  rw [registerPickled]
  cases pickled : e.pickled with
  | true =>
    have there : ((r.byClass.find? c).any fun old => old.tag == e.tag &&
        old.does (Pickle.codec r.fallback (some type)) true) = true := by
      rw [found]
      simp [Entry.does, pickled]
    rw [bind_same_run proto unreserved there, if_pos rfl]
  | false =>
    have new : ((r.byClass.find? c).any fun old => old.tag == e.tag &&
        old.does (Pickle.codec r.fallback (some type)) true) = false := by
      rw [found]
      simp [Entry.does, pickled]
    rw [bind_unrivalled_run proto unreserved (h.rival?_own held found) new,
      if_neg Bool.false_ne_true, found, Entry.whole, typed]
    rfl

namespace Pickles

variable {base own : Registry} {pickled : List String}

theorem find? (h : Pickles base own pickled) {tag : String} {e : Entry}
    (held : base.byTag.find? tag = some e) :
    own.byTag.find? tag = some (if tag ∈ pickled then e.whole base.fallback else e) := by
  rw [h.entries, held]
  rfl

theorem typeForTag (h : Pickles base own pickled) : own.typeForTag = base.typeForTag := by
  funext tag
  rw [Registry.typeForTag, Registry.typeForTag, h.entries]
  cases base.byTag.find? tag with
  | none => rfl
  | some e =>
    dsimp only [Option.map_some, Option.bind_some]
    split <;> rfl

theorem copyWith (h : Pickles base own pickled) (faithful : base.UsesOwnCodec) (name : String) :
    Pickles base (own.copyWith { name := some name }) pickled where
  consistent := h.consistent.copyWith _
  settings := h.settings.trans (sameSettings_copyWith own name)
  tags := (h.consistent.tags_copyWith _).trans h.tags
  entries := by
    intro tag
    have fallback : (own.copyWith { name := some name }).fallback = base.fallback :=
      (sameSettings_copyWith own name).fallback.trans h.settings.fallback
    rw [h.consistent.find?_byTag_copyWith, fallback, h.entries]
    cases held : base.byTag.find? tag with
    | none => rfl
    | some e =>
      simp only [Option.map_some, Option.some.injEq]
      split
      · exact e.withFallback_whole base.fallback
      · exact faithful tag e held

theorem add (h : Pickles base own pickled) {own' : Registry} {tag : String} {e : Entry}
    (consistent : own'.Consistent) (settings : own.SameSettings own') (tags : own'.tags = own.tags)
    (held : base.byTag.find? tag = some e)
    (put : own'.byTag.find? tag = some (e.whole base.fallback))
    (others : ∀ t ≠ tag, own'.byTag.find? t = own.byTag.find? t) :
    Pickles base own' (pickled ++ [tag]) where
  consistent := consistent
  settings := h.settings.trans settings
  tags := tags.trans h.tags
  entries := by
    intro t
    by_cases same : t = tag
    · rw [same, put, held, Option.map_some, if_pos List.mem_concat_self]
    · rw [others t same, h.entries]
      simp only [List.mem_append, List.mem_singleton, same, or_false]

theorem registerPickled_run (h : Pickles base own pickled) (faithful : base.UsesOwnCodec)
    {tag : String} (mem : tag ∈ base.tags) {notices : List Notice} (quiet : Quiet notices) :
    ∃ type own' after, base.typeForTag tag = some type ∧
      (own.registerPickled type tag).run notices = (.ok own', after) ∧
      Pickles base own' (pickled ++ [tag]) ∧ own'.name = own.name ∧ Quiet after := by
  obtain ⟨e₀, held₀⟩ := Option.isSome_iff_exists.1 ((Assoc.mem_keys_iff_isSome _ _).1 mem)
  obtain ⟨e, c, type, held, rfl, found, typed, proto⟩ := h.consistent.exists_entry (h.tags ▸ mem)
  have shape : e = if e.tag ∈ pickled then e₀.whole base.fallback else e₀ :=
    Option.some.inj (held.symm.trans (h.find? held₀))
  have known : base.typeForTag e.tag = some type := by
    rw [← h.typeForTag, Registry.typeForTag, held]
    exact typed
  have run := h.consistent.registerPickled_own_run held found typed proto notices
  refine ⟨type, ?_⟩
  cases pickledBefore : e.pickled with
  | true =>
    rw [pickledBefore, if_pos rfl] at run
    have put : e = e₀.whole base.fallback := by
      rw [shape]
      split
      next => rfl
      next unlisted =>
        rw [if_neg unlisted] at shape
        exact (faithful.whole_eq held₀ (shape ▸ pickledBefore)).symm
    refine ⟨own, notices, known, run, ?_, rfl, quiet⟩
    exact h.add h.consistent ⟨rfl, rfl, rfl⟩ rfl held₀ (put ▸ held) fun _ _ => rfl
  | false =>
    rw [pickledBefore, if_neg Bool.false_ne_true] at run
    have put : e.whole own.fallback = e₀.whole base.fallback := by
      rw [shape, h.settings.fallback]
      split <;> rfl
    have own' : (e.whole own.fallback).prototype? = some c :=
      Option.bind_eq_some_iff.2 ⟨type, typed, proto⟩
    have unreserved : (e.whole own.fallback).tag ≠ fallbackTag := h.consistent.ne_fallbackTag held
    refine ⟨_, _, known, run, ?_, (sameSettings_rebind _ _ _).2, quiet.report (by simp) (by simp)⟩
    refine h.add (h.consistent.rebind own' unreserved) (sameSettings_rebind _ _ _).1
      (h.consistent.tags_rebind_own held found rfl) held₀ ?_ fun t other => ?_
    · rw [find?_byTag_rebind, Entry.tag_whole, if_pos rfl, put]
    · have kept : (some e).map Entry.tag ≠ some t := fun same => other (Option.some.inj same).symm
      rw [find?_byTag_rebind, Entry.tag_whole, if_neg other, found, if_neg kept]

theorem find?_byClass (h : Pickles base own pickled) (consistent : base.Consistent) (c : Class) :
    own.byClass.find? c =
      (base.byClass.find? c).map fun e => if e.tag ∈ pickled then e.whole base.fallback else e := by
  have prototype (e : Entry) :
      (if e.tag ∈ pickled then e.whole base.fallback else e).prototype? = e.prototype? := by
    split <;> rfl
  cases found : base.byClass.find? c with
  | some e =>
    obtain ⟨proto, held⟩ := consistent.ofClass c e found
    obtain ⟨-, c', proto', found'⟩ := h.consistent.ofTag _ _ (h.find? held)
    rw [prototype, proto, Option.some.injEq] at proto'
    rw [proto', found', Option.map_some]
  | none =>
    rw [Option.map_none, Option.eq_none_iff_forall_ne_some]
    intro e' there
    obtain ⟨proto, held⟩ := h.consistent.ofClass c e' there
    rw [h.entries] at held
    obtain ⟨e, held, same⟩ := Option.map_eq_some_iff.1 held
    obtain ⟨own', c', proto', found'⟩ := consistent.ofTag _ _ held
    rw [← own'] at same
    rw [← same, prototype, proto', Option.some.injEq] at proto
    rw [proto, found] at found'
    cases found'

theorem fallbackEntry (h : Pickles base own pickled) :
    own.fallbackEntry =
      if base.fallbackEntry.tag ∈ pickled then base.fallbackEntry.whole base.fallback
      else base.fallbackEntry := by
  have same : own.fallbackEntry = base.fallbackEntry := by
    rw [Registry.fallbackEntry, Registry.fallbackEntry, h.settings.fallback]
  exact same.trans (ite_self _).symm

/-- A class dispatches to the entry that it dispatches to in the base, or to that entry pickled. -/
theorem nearest (h : Pickles base own pickled) (consistent : base.Consistent)
    (lineage : List Class) :
    own.nearest lineage =
      if (base.nearest lineage).tag ∈ pickled then (base.nearest lineage).whole base.fallback
      else base.nearest lineage := by
  have found : lineage.findSome? (own.byClass.find? ·) =
      (lineage.findSome? (base.byClass.find? ·)).map fun e =>
        if e.tag ∈ pickled then e.whole base.fallback else e := by
    rw [List.map_findSome?]
    exact congrArg (List.findSome? · lineage) (funext (h.find?_byClass consistent))
  rw [Registry.nearest, Registry.nearest, found]
  cases lineage.findSome? (base.byClass.find? ·) with
  | some e => rfl
  | none => exact h.fallbackEntry

theorem entryFor (h : Pickles base own pickled) (consistent : base.Consistent) (g : Graph)
    (v : Value) :
    own.entryFor g v =
      if (base.entryFor g v).tag ∈ pickled then (base.entryFor g v).whole base.fallback
      else base.entryFor g v := by
  unfold Registry.entryFor
  cases g.classOf? v with
  | some c => exact h.nearest consistent c.lineage
  | none => exact h.fallbackEntry

end Pickles

/-- What a registry has from its base: everything, but that the listed tags are pickled. -/
structure Inherits (base own : Registry) (listed : String → Prop) : Prop where
  tags : own.tags = base.tags
  types : own.typeForTag = base.typeForTag
  settings : base.SameSettings own
  oneToOne : own.OneToOne
  entries : ∀ tag e, base.byTag.find? tag = some e → ∃ e', own.byTag.find? tag = some e' ∧
    (e'.pickled = true ↔ e.pickled = true ∨ listed tag) ∧
    (e'.pickled = true → e' = e.whole base.fallback) ∧ (e'.pickled = e.pickled → e' = e)

theorem Pickles.inherits {base own : Registry} {pickled : List String}
    (h : Pickles base own pickled) (faithful : base.UsesOwnCodec) {listed : String → Prop}
    (same : ∀ tag, tag ∈ pickled ↔ listed tag) : base.Inherits own listed where
  tags := h.tags
  types := h.typeForTag
  settings := h.settings
  oneToOne := h.consistent.oneToOne
  entries := by
    intro tag e held
    refine ⟨_, h.find? held, ?_⟩
    rw [← same]
    split
    next there =>
      exact ⟨⟨fun _ => .inr there, fun _ => rfl⟩, fun _ => rfl,
        fun before => faithful.whole_eq held before.symm⟩
    next absent =>
      exact ⟨⟨.inl, fun either => either.resolve_right absent⟩,
        fun before => (faithful.whole_eq held before).symm, fun _ => rfl⟩

end Registry

end Marshal
