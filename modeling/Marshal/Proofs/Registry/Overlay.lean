import Marshal.Proofs.Registry.Order
import Marshal.Proofs.Registry.Rebinding

namespace Marshal

structure Entry.Matches (e e' : Entry) : Prop where
  tag : e.tag = e'.tag
  prototype : e.prototype? = e'.prototype?
  codec : e.codec = e'.codec
  pickled : e.pickled = e'.pickled

theorem Entry.Matches.refl (e : Entry) : e.Matches e := ⟨rfl, rfl, rfl, rfl⟩

theorem Routine.eq_of_isSame {a b : Routine} {meaning : Meaning} (same : a.isSame b = true)
    (left : ∀ k, a.key = some k → a.run = meaning k)
    (right : ∀ k, b.key = some k → b.run = meaning k) : a = b := by
  have run := Routine.run_eq_of_isSame same left right
  have key : a.key = b.key := beq_iff_eq.1 (Bool.and_eq_true_iff.1 same).2
  cases a
  cases b
  cases run
  cases key
  rfl

theorem Entry.matches_of_does {old new : Entry} {bytes : ByteCodec} {meaning : Meaning}
    (genuineOld : Registry.Genuine meaning bytes old)
    (genuineNew : Registry.Genuine meaning bytes new) (tag : old.tag = new.tag)
    (prototype : old.prototype? = new.prototype?)
    (same : old.does new.codec new.pickled = true) : old.Matches new := by
  cases whole : old.pickled <;> cases whole' : new.pickled <;>
    simp only [does, whole, whole', Bool.or_self, Bool.or_true, Bool.true_or, if_true,
      Bool.false_eq_true, if_false, Bool.and_eq_true] at same
  · have writing := Routine.eq_of_isSame same.1 genuineOld.2.1 genuineNew.2.1
    have reading := Routine.eq_of_isSame same.2 genuineOld.2.2 genuineNew.2.2
    refine ⟨tag, prototype, ?_, whole.trans whole'.symm⟩
    exact (congr (congrArg Codec.mk writing) reading :)
  · cases same
  · cases same
  · refine ⟨tag, prototype, ?_, whole.trans whole'.symm⟩
    rw [← genuineOld.1, ← genuineNew.1, withFallback_of_pickled whole,
      withFallback_of_pickled whole']
    exact Pickle.codec_congr bytes prototype

namespace Registry

open Marshal.Effect

def knows (r : Registry) (c : Class) (e : Entry) : Bool :=
  (r.byClass.find? c).any fun old => old.tag == e.tag && old.does e.codec e.pickled

/-- The registry with an entry put over what its class and its tag had, unless it is there. -/
def overlay (r : Registry) (e : Entry) : Registry :=
  match e.prototype? with
  | none => r
  | some c => if r.knows c e then r else r.rebind c e

/-- Why an entry is not put in: under the error policy, another type that has its tag. -/
def objection? (r : Registry) (e : Entry) : Option Fault :=
  match e.prototype? with
  | none => none
  | some c =>
    if r.knows c e = false ∧ r.duplicateTags = .error then
      (r.rival? c e.tag).map fun holder =>
        .registry (.duplicateTag e.tag (holderName holder) (holderName e))
    else none

def putIn (r : Registry) (e : Entry) : Except Fault Registry :=
  match r.objection? e with
  | some fault => .error fault
  | none => .ok (r.overlay e)

/-- Entries of different classes under different tags, as a registry with the byte codec has
them. -/
structure Layer (meaning : Meaning) (bytes : ByteCodec) (entries : List Entry) : Prop where
  owned : ∀ e ∈ entries, e.prototype?.isSome = true
  unreserved : ∀ e ∈ entries, e.tag ≠ fallbackTag
  genuine : ∀ e ∈ entries, Genuine meaning bytes e
  classes : (entries.map Entry.prototype?).Nodup
  tags : (entries.map Entry.tag).Nodup

/-- What is in the registry after entries were put over it: they are, and of what was there
everything that has neither the class nor the tag of one of them. -/
structure Overlaid (r r' : Registry) (entries : List Entry) : Prop where
  put : ∀ e ∈ entries, ∃ c e', e.prototype? = some c ∧ r'.byClass.find? c = some e' ∧
    r'.byTag.find? e.tag = some e' ∧ e'.Matches e
  byTag : ∀ tag ∉ entries.map Entry.tag, ∀ e, r'.byTag.find? tag = some e ↔
    r.byTag.find? tag = some e ∧ e.prototype? ∉ entries.map Entry.prototype?
  byClass : ∀ c, some c ∉ entries.map Entry.prototype? → ∀ e, r'.byClass.find? c = some e ↔
    r.byClass.find? c = some e ∧ e.tag ∉ entries.map Entry.tag

/-- What comes of putting entries over what is in a registry: all of them are there in the end,
unless the policy is to fail where a tag is taken from another type. Then it may be that the tag of
one of them belongs to another type when its turn comes. -/
structure Prevails (r : Registry) (policy : Policy) (entries : List Entry)
    (result : Except Fault Registry) : Prop where
  returns : policy ≠ .error → ∃ final, result = .ok final
  overlaid : ∀ final, result = .ok final → Overlaid r final entries
  refused : ∀ fault, result = .error fault → policy = .error ∧
    ∃ before e after middle holder, entries = before ++ e :: after ∧ Overlaid r middle before ∧
      middle.byTag.find? e.tag = some holder ∧ holder.prototype? ≠ e.prototype? ∧
      fault = .registry (.duplicateTag e.tag (holderName holder) (holderName e))

section Overlay

variable {r r' : Registry} {e : Entry} {entries rest : List Entry} {meaning : Meaning}

theorem Layer.tail {bytes : ByteCodec} (h : Layer meaning bytes (e :: rest)) :
    Layer meaning bytes rest := by
  obtain ⟨owned, unreserved, genuine, classes, tags⟩ := h
  rw [List.forall_mem_cons] at owned unreserved genuine
  rw [List.map_cons, List.nodup_cons] at classes tags
  exact ⟨owned.2, unreserved.2, genuine.2, classes.2, tags.2⟩

theorem sameSettings_overlay (r : Registry) (e : Entry) : r.SameSettings (r.overlay e) := by
  unfold overlay
  split
  next => exact ⟨rfl, rfl, rfl⟩
  next c _ =>
    split
    next => exact ⟨rfl, rfl, rfl⟩
    next => exact (sameSettings_rebind r c e).1

theorem Consistent.overlay (h : r.Consistent) (unreserved : e.tag ≠ fallbackTag) :
    (r.overlay e).Consistent := by
  unfold Registry.overlay
  split
  next => exact h
  next c own =>
    split
    next => exact h
    next => exact h.rebind own unreserved

theorem Bound.overlay {P : ByteCodec → Entry → Prop} (h : Bound P r) (new : P r.fallback e) :
    Bound P (r.overlay e) := by
  intro tag old held
  rw [(sameSettings_overlay r e).fallback]
  unfold Registry.overlay at held
  split at held
  next => exact h tag old held
  next c _ =>
    split at held
    next => exact h tag old held
    next =>
      rw [find?_byTag_rebind] at held
      split at held
      next => exact Option.some.inj held ▸ new
      next =>
        split at held
        next => cases held
        next => exact h tag old held

theorem Consistent.overlaid_self (h : r.Consistent) {c : Class} {old : Entry}
    (own : e.prototype? = some c) (found : r.byClass.find? c = some old) (same : old.Matches e) :
    Overlaid r r [e] where
  put := by
    intro e' mem
    rw [List.mem_singleton.1 mem]
    exact ⟨c, old, own, found, same.tag ▸ (h.ofClass c old found).2, same⟩
  byTag := by
    intro tag other e'
    refine ⟨fun held => ⟨held, fun mem => other ?_⟩, And.left⟩
    obtain ⟨tagged, k, proto, there⟩ := h.ofTag tag e' held
    obtain rfl : c = k :=
      Option.some.inj (own.symm.trans ((List.mem_singleton.1 mem).symm.trans proto))
    rw [found, Option.some.injEq] at there
    exact List.mem_singleton.2 (tagged.symm.trans (there ▸ same.tag))
  byClass := by
    intro k other e'
    refine ⟨fun there => ⟨there, fun mem => other ?_⟩, And.left⟩
    obtain ⟨proto, held⟩ := h.ofClass k e' there
    have held' := (h.ofClass c old found).2
    rw [same.tag, ← List.mem_singleton.1 mem, held, Option.some.injEq] at held'
    exact List.mem_singleton.2 (proto.symm.trans (held' ▸ same.prototype))

theorem Consistent.overlaid_rebind (h : r.Consistent) {c : Class} (own : e.prototype? = some c) :
    Overlaid r (r.rebind c e) [e] where
  put := by
    intro e' mem
    rw [List.mem_singleton.1 mem]
    exact ⟨c, e, own, (h.rebound.byClass c e).2 (.inl ⟨rfl, rfl⟩),
      (h.rebound.byTag e.tag e).2 (.inl ⟨rfl, rfl⟩), .refl e⟩
  byTag := by
    intro tag other e'
    rw [List.map_singleton, List.mem_singleton] at other
    rw [h.rebound.byTag, List.map_singleton, List.mem_singleton, own]
    simp only [other, false_and, false_or, ne_eq, not_false_eq_true, true_and]
    exact and_comm
  byClass := by
    intro k other e'
    rw [List.map_singleton, List.mem_singleton, own, Option.some.injEq] at other
    rw [h.rebound.byClass, List.map_singleton, List.mem_singleton]
    simp only [other, false_and, false_or, ne_eq, not_false_eq_true, true_and]
    exact and_comm

theorem Consistent.overlaid_overlay (h : r.Consistent) (bound : Bound (Genuine meaning) r)
    (owned : e.prototype?.isSome = true) (genuine : Genuine meaning r.fallback e) :
    Overlaid r (r.overlay e) [e] := by
  obtain ⟨c, own⟩ := Option.isSome_iff_exists.1 owned
  rw [Registry.overlay, own]
  dsimp only
  split
  next known =>
    obtain ⟨old, found, same⟩ := (Option.any_eq_true _ _).1 known
    obtain ⟨tag, does⟩ := Bool.and_eq_true_iff.1 same
    obtain ⟨proto, held⟩ := h.ofClass c old found
    exact h.overlaid_self own found (Entry.matches_of_does (bound _ _ held) genuine
      (beq_iff_eq.1 tag) (proto.trans own.symm) does)
  next => exact h.overlaid_rebind own

theorem Overlaid.nil (r : Registry) : Overlaid r r [] :=
  ⟨nofun, fun _ _ _ => by simp, fun _ _ _ => by simp⟩

theorem Overlaid.cons {middle : Registry} (first : Overlaid r middle [e])
    (more : Overlaid middle r' rest) (tag : e.tag ∉ rest.map Entry.tag)
    (prototype : e.prototype? ∉ rest.map Entry.prototype?) : Overlaid r r' (e :: rest) where
  put := by
    refine List.forall_mem_cons.2 ⟨?_, more.put⟩
    obtain ⟨c, e', own, found, held, same⟩ := first.put e List.mem_cons_self
    exact ⟨c, e', own, (more.byClass c (own ▸ prototype) e').2 ⟨found, same.tag.symm ▸ tag⟩,
      (more.byTag e.tag tag e').2 ⟨held, same.prototype.symm ▸ prototype⟩, same⟩
  byTag := by
    intro t other e'
    rw [List.map_cons, List.mem_cons, not_or] at other
    rw [more.byTag t other.2, first.byTag t (by simpa using other.1)]
    simp only [List.map_cons, List.map_nil, List.mem_cons, List.not_mem_nil, or_false, not_or,
      and_assoc]
  byClass := by
    intro c other e'
    rw [List.map_cons, List.mem_cons, not_or] at other
    rw [more.byClass c other.2, first.byClass c (by simpa using other.1)]
    simp only [List.map_cons, List.map_nil, List.mem_cons, List.not_mem_nil, or_false, not_or,
      and_assoc]

theorem Consistent.overlaid_foldl (h : r.Consistent) (bound : Bound (Genuine meaning) r)
    (layer : Layer meaning r.fallback entries) :
    Overlaid r (entries.foldl Registry.overlay r) entries := by
  induction entries generalizing r with
  | nil => exact .nil r
  | cons e rest ih =>
    have fallback := (sameSettings_overlay r e).fallback
    have genuine := layer.genuine e List.mem_cons_self
    have classes := layer.classes
    have tags := layer.tags
    rw [List.map_cons, List.nodup_cons] at classes tags
    have first := h.overlaid_overlay bound (layer.owned e List.mem_cons_self) genuine
    refine first.cons (ih (h.overlay (layer.unreserved e List.mem_cons_self))
      (bound.overlay genuine) ?_) tags.1 classes.1
    rw [fallback]
    exact layer.tail

theorem registerAgain_eq_bind (own : e.withFallback r.fallback = e) {type : TypeRef}
    (typed : e.type = some type) :
    r.registerAgain e = r.bind type e.tag e.codec e.pickled := by
  rw [registerAgain, typed]
  cases whole : e.pickled with
  | true =>
    have codec : e.codec = Pickle.codec r.fallback (some type) := by
      rw [← own, Entry.withFallback_of_pickled whole, Entry.whole, typed]
    rw [codec]
    rfl
  | false => rfl

theorem exists_registerAgain_run (owned : e.prototype?.isSome = true)
    (unreserved : e.tag ≠ fallbackTag) (own : e.withFallback r.fallback = e)
    (notices : List Notice) :
    ∃ after, (r.registerAgain e).run notices = (r.putIn e, after) := by
  obtain ⟨c, proto⟩ := Option.isSome_iff_exists.1 owned
  obtain ⟨type, typed, class_eq⟩ := Option.bind_eq_some_iff.1 proto
  have entry : (⟨some type, e.tag, e.codec, e.pickled⟩ : Entry) = e := by rw [← typed]
  have shown : holderName e = type.name := by rw [holderName, typed]; rfl
  rw [registerAgain_eq_bind own typed, putIn, objection?, overlay, proto, shown]
  dsimp only
  cases known : r.knows c e with
  | true => exact ⟨_, bind_same_run class_eq unreserved known notices⟩
  | false =>
    cases rivalled : r.rival? c e.tag with
    | none =>
      rw [bind_unrivalled_run class_eq unreserved rivalled known, entry]
      simp
    | some holder =>
      rw [bind_rivalled_run class_eq unreserved rivalled known, entry]
      by_cases refused : r.duplicateTags = .error <;> simp [refused]

theorem exists_replay_run (layer : Layer meaning r.fallback entries) (notices : List Notice) :
    ∃ after, (r.replay entries).run notices = (entries.foldlM putIn r, after) := by
  induction entries generalizing r notices with
  | nil => exact ⟨notices, rfl⟩
  | cons e rest ih =>
    obtain ⟨middle, ran⟩ := exists_registerAgain_run (layer.owned e List.mem_cons_self)
      (layer.unreserved e List.mem_cons_self) (layer.genuine e List.mem_cons_self).1 notices
    rw [replay, List.foldlM_cons, List.foldlM_cons, run_bind, ran, putIn]
    cases r.objection? e with
    | some fault => exact ⟨middle, rfl⟩
    | none => exact ih ((sameSettings_overlay r e).fallback.symm ▸ layer.tail) middle

theorem objection?_eq_some {fault : Fault} (h : r.objection? e = some fault) :
    r.duplicateTags = .error ∧ ∃ holder, r.byTag.find? e.tag = some holder ∧
      holder.prototype? ≠ e.prototype? ∧
      fault = .registry (.duplicateTag e.tag (holderName holder) (holderName e)) := by
  unfold objection? at h
  split at h
  next => cases h
  next c own =>
    split at h
    next refused =>
      obtain ⟨holder, rivalled, rfl⟩ := Option.map_eq_some_iff.1 h
      obtain ⟨held, other⟩ := Option.filter_eq_some_iff.1 rivalled
      exact ⟨refused.2, holder, held, own ▸ bne_iff_ne.1 other, rfl⟩
    next => cases h

theorem duplicateTags_foldl_overlay (r : Registry) (entries : List Entry) :
    (entries.foldl overlay r).duplicateTags = r.duplicateTags := by
  induction entries generalizing r with
  | nil => rfl
  | cons e rest ih => exact (ih (r.overlay e)).trans (sameSettings_overlay r e).duplicateTags

theorem foldlM_putIn_cases (r : Registry) (entries : List Entry) :
    entries.foldlM putIn r = .ok (entries.foldl overlay r) ∨
      ∃ before e after fault, entries = before ++ e :: after ∧
        (before.foldl overlay r).objection? e = some fault ∧
        entries.foldlM putIn r = .error fault := by
  induction entries generalizing r with
  | nil => exact .inl rfl
  | cons e rest ih =>
    rw [List.foldlM_cons, putIn]
    cases opposed : r.objection? e with
    | some fault => exact .inr ⟨[], e, rest, fault, rfl, opposed, rfl⟩
    | none =>
      refine (ih (r.overlay e)).imp id ?_
      rintro ⟨before, e', after, fault, rfl, opposed', ran⟩
      exact ⟨e :: before, e', after, fault, rfl, opposed', ran⟩

theorem Layer.of_append {bytes : ByteCodec} (h : Layer meaning bytes (entries ++ rest)) :
    Layer meaning bytes entries where
  owned := fun e mem => h.owned e (List.mem_append_left rest mem)
  unreserved := fun e mem => h.unreserved e (List.mem_append_left rest mem)
  genuine := fun e mem => h.genuine e (List.mem_append_left rest mem)
  classes := h.classes.sublist ((List.sublist_append_left entries rest).map _)
  tags := h.tags.sublist ((List.sublist_append_left entries rest).map _)

theorem Consistent.prevails (h : r.Consistent) (bound : Bound (Genuine meaning) r)
    (layer : Layer meaning r.fallback entries) :
    Prevails r r.duplicateTags entries (entries.foldlM putIn r) := by
  rcases r.foldlM_putIn_cases entries with all | ⟨before, e, after, fault, rfl, opposed, ran⟩
  · rw [all]
    refine ⟨fun _ => ⟨_, rfl⟩, ?_, nofun⟩
    rintro final ⟨⟩
    exact h.overlaid_foldl bound layer
  · obtain ⟨strict, holder, held, other, told⟩ := objection?_eq_some opposed
    rw [duplicateTags_foldl_overlay] at strict
    rw [ran]
    refine ⟨fun lenient => absurd strict lenient, nofun, ?_⟩
    rintro _ ⟨⟩
    exact ⟨strict, before, e, after, _, holder, rfl, h.overlaid_foldl bound layer.of_append, held,
      other, told⟩

theorem Overlaid.of_find?_eq {copy : Registry} (h : Overlaid copy r' entries)
    (byTag : ∀ tag, r.byTag.find? tag = copy.byTag.find? tag)
    (byClass : ∀ c, r.byClass.find? c = copy.byClass.find? c) : Overlaid r r' entries :=
  ⟨h.put, fun tag other e => byTag tag ▸ h.byTag tag other e,
    fun c other e => byClass c ▸ h.byClass c other e⟩

theorem Prevails.of_find?_eq {copy : Registry} {policy : Policy} {result : Except Fault Registry}
    (h : Prevails copy policy entries result)
    (byTag : ∀ tag, r.byTag.find? tag = copy.byTag.find? tag)
    (byClass : ∀ c, r.byClass.find? c = copy.byClass.find? c) :
    Prevails r policy entries result where
  returns := h.returns
  overlaid := fun final same => (h.overlaid final same).of_find?_eq byTag byClass
  refused := by
    intro fault same
    obtain ⟨strict, before, e, after, middle, holder, split, first, more⟩ := h.refused fault same
    exact ⟨strict, before, e, after, middle, holder, split, first.of_find?_eq byTag byClass, more⟩

end Overlay

end Registry

end Marshal
