import Marshal.Proofs.Effect
import Marshal.Registry.Call

namespace Marshal.Registry

open Marshal.Effect

theorem accept_eq_some {r : Registry} {type : TypeRef} {tag : String} {codec : Codec}
    {pickled : Bool} {notices after : List Notice} {c : Class} {e : Entry}
    (h : (r.accept type tag codec pickled).run notices = (.ok (some (c, e)), after)) :
    type.prototype = some c ∧ tag ≠ fallbackTag ∧
      e = { type := some type, tag, codec, pickled } := by
  unfold accept at h
  split at h
  next => cases h
  next unreserved =>
    split at h
    next => cases h
    next k hk =>
      dsimp only at h
      split at h
      next => cases h
      next =>
        have last : ∀ middle after', (do
            r.emit (if (r.byClass.find? k).isSome then .replaced tag type.name
              else .registered tag type.name)
            return some (k, { type := some type, tag, codec, pickled }) :
              Reporting (Option (Class × Entry))).run middle = (.ok (some (c, e)), after') →
            c = k ∧ e = { type := some type, tag, codec, pickled } := by
          intro middle after' h
          cases h
          exact ⟨rfl, rfl⟩
        have done : c = k ∧ e = { type := some type, tag, codec, pickled } := by
          split at h
          next =>
            obtain ⟨_, middle, -, h⟩ := run_bind_eq_ok.1 h
            exact last middle after h
          next => exact last notices after h
        rw [done.1]
        exact ⟨hk, by simpa using unreserved, done.2⟩

/-- Everything that binding can come to: it fails, it changes nothing, or it puts one entry in. -/
theorem bind_cases (r : Registry) (type : TypeRef) (tag : String) (codec : Codec) (pickled : Bool)
    (notices : List Notice) :
    (∃ fault after, (r.bind type tag codec pickled).run notices = (.error fault, after)) ∨
      (∃ after, (r.bind type tag codec pickled).run notices = (.ok r, after)) ∨
      ∃ c after, type.prototype = some c ∧ tag ≠ fallbackTag ∧
        (r.bind type tag codec pickled).run notices =
          (.ok (r.rebind c { type := some type, tag, codec, pickled }), after) := by
  rw [bind, run_bind]
  cases h : (r.accept type tag codec pickled).run notices with
  | mk result after =>
    match result, h with
    | .error fault, _ => exact .inl ⟨fault, after, rfl⟩
    | .ok none, _ => exact .inr (.inl ⟨after, rfl⟩)
    | .ok (some (c, e)), h =>
      obtain ⟨hc, unreserved, rfl⟩ := accept_eq_some h
      exact .inr (.inr ⟨c, after, hc, unreserved, rfl⟩)

theorem bind_same_run {r : Registry} {type : TypeRef} {tag : String} {c : Class} {codec : Codec}
    {pickled : Bool} (own : type.prototype = some c) (unreserved : tag ≠ fallbackTag)
    (there : ((r.byClass.find? c).any fun e => e.tag == tag && e.does codec pickled) = true)
    (notices : List Notice) : (r.bind type tag codec pickled).run notices = (.ok r, notices) := by
  have free : (tag == fallbackTag) = false := beq_eq_false_iff_ne.2 unreserved
  simp only [bind, run_bind, accept, free, own, there, Bool.false_eq_true, if_false, if_true]
  rfl

theorem bind_unrivalled_run {r : Registry} {type : TypeRef} {tag : String} {c : Class}
    {codec : Codec} {pickled : Bool} (own : type.prototype = some c)
    (unreserved : tag ≠ fallbackTag) (unrivalled : r.rival? c tag = none)
    (new : ((r.byClass.find? c).any fun e => e.tag == tag && e.does codec pickled) = false)
    (notices : List Notice) :
    (r.bind type tag codec pickled).run notices =
      (.ok (r.rebind c { type := some type, tag, codec, pickled }),
        notices ++ [.entry ⟨r.name, if (r.byClass.find? c).isSome then .replaced tag type.name
          else .registered tag type.name⟩]) := by
  have free : (tag == fallbackTag) = false := beq_eq_false_iff_ne.2 unreserved
  simp only [bind, run_bind, accept, free, own, new, unrivalled, Bool.false_eq_true, if_false]
  rfl

theorem rival?_eq_none {r : Registry} {tag : String} (free : r.byTag.find? tag = none) (c : Class) :
    r.rival? c tag = none := by
  rw [rival?, free]
  rfl

theorem bind_free_run {r : Registry} {type : TypeRef} {tag : String} {c : Class} (codec : Codec)
    (pickled : Bool) (own : type.prototype = some c) (unreserved : tag ≠ fallbackTag)
    (freeClass : r.byClass.find? c = none) (freeTag : r.byTag.find? tag = none)
    (notices : List Notice) :
    (r.bind type tag codec pickled).run notices =
      (.ok (r.rebind c { type := some type, tag, codec, pickled }),
        notices ++ [.entry ⟨r.name, .registered tag type.name⟩]) := by
  have new : ((r.byClass.find? c).any fun e => e.tag == tag && e.does codec pickled) = false := by
    rw [freeClass]
    rfl
  rw [bind_unrivalled_run own unreserved (rival?_eq_none freeTag c) new notices, freeClass]
  rfl

theorem rebind_of_free {r : Registry} {c : Class} {e : Entry} (freeClass : r.byClass.find? c = none)
    (freeTag : r.byTag.find? e.tag = none) : r.rebind c e = r.store c e := by
  rw [rebind, rival?_eq_none freeTag, freeClass]
  rfl

theorem find?_byClass_dropClass (r : Registry) (gone : Option Class) (k : Class) :
    (r.dropClass gone).byClass.find? k = if gone = some k then none else r.byClass.find? k := by
  cases gone with
  | none => rfl
  | some c =>
    rw [dropClass, Assoc.find?_erase]
    simp only [Option.some.injEq, eq_comm]

theorem byTag_dropClass (r : Registry) (gone : Option Class) :
    (r.dropClass gone).byTag = r.byTag := by
  cases gone <;> rfl

theorem find?_byTag_dropTag (r : Registry) (gone : Option String) (t : String) :
    (r.dropTag gone).byTag.find? t = if gone = some t then none else r.byTag.find? t := by
  cases gone with
  | none => rfl
  | some tag =>
    rw [dropTag, Assoc.find?_erase]
    simp only [Option.some.injEq, eq_comm]

theorem byClass_dropTag (r : Registry) (gone : Option String) :
    (r.dropTag gone).byClass = r.byClass := by
  cases gone <;> rfl

theorem find?_byClass_rebind (r : Registry) (c : Class) (e : Entry) (k : Class) :
    (r.rebind c e).byClass.find? k =
      if k = c then some e
      else if (r.rival? c e.tag).bind Entry.prototype? = some k then none
      else r.byClass.find? k := by
  rw [rebind, store, Assoc.find?_set, byClass_dropTag, find?_byClass_dropClass]

theorem find?_byTag_rebind (r : Registry) (c : Class) (e : Entry) (t : String) :
    (r.rebind c e).byTag.find? t =
      if t = e.tag then some e
      else if (r.byClass.find? c).map Entry.tag = some t then none
      else r.byTag.find? t := by
  rw [rebind, store, Assoc.find?_set, find?_byTag_dropTag, byTag_dropClass]
  split
  next => rfl
  next other =>
    have former : ((r.byClass.find? c).map Entry.tag).filter (· != e.tag) = some t ↔
        (r.byClass.find? c).map Entry.tag = some t := by
      rw [Option.filter_eq_some_iff]
      simp [other]
    simp only [former]

end Marshal.Registry
