import Marshal.Proofs.Registry.Rebinding

namespace Marshal.Registry

open Marshal.Effect

/-- Steps that change a registry in place and report as they go. What was changed before a failure
stays changed. -/
abbrev Edit := ExceptT Fault (StateM (Registry × List Notice))

namespace Edit

def update (f : Registry → Registry) : Edit Unit := modify fun (r, notices) => (f r, notices)

def reportBy (step : Registry → Reporting Unit) : Edit Unit := fun (r, notices) =>
  let (result, notices) := (step r).run notices
  (result, (r, notices))

end Edit

def seize (c : Class) (type : TypeRef) (tag : String) : Edit Unit := do
  match (← get).1.rival? c tag with
  | none => return
  | some holder =>
    Edit.reportBy fun r => r.contest holder type tag
    Edit.update fun r => r.dropClass holder.prototype?

def install (c : Class) (e : Entry) (existing : Option Entry) : Edit Unit := do
  Edit.update fun r => r.dropTag ((existing.map Entry.tag).filter (· != e.tag))
  Edit.update fun r => { r with byClass := r.byClass.set c e }
  Edit.update fun r => { r with byTag := r.byTag.set e.tag e }
  Edit.update fun r => { r with resolved := [] }
  Edit.reportBy fun r =>
    r.emit (if existing.isSome then .replaced e.tag (holderName e)
      else .registered e.tag (holderName e))

/-- Binds a type to a tag by changing one index after the other, with checks in between. -/
def bindInPlace (type : TypeRef) (tag : String) (codec : Codec) (pickled : Bool) : Edit Unit := do
  if tag == fallbackTag then throw (.registry (.reservedTag tag))
  else
    match type.prototype with
    | none => throw (noPrototype type)
    | some c =>
      let existing := (← get).1.byClass.find? c
      if existing.any fun e => e.tag == tag && e.does codec pickled then return
      else do
        seize c type tag
        install c { type := some type, tag, codec, pickled } existing

theorem name_dropClass (r : Registry) (gone : Option Class) : (r.dropClass gone).name = r.name := by
  cases gone <;> rfl

theorem name_dropTag (r : Registry) (gone : Option String) : (r.dropTag gone).name = r.name := by
  cases gone <;> rfl

theorem seize_run (r : Registry) (c : Class) (type : TypeRef) (tag : String)
    (notices : List Notice) :
    (seize c type tag).run (r, notices) =
      match r.rival? c tag with
      | none => (.ok (), (r, notices))
      | some holder =>
        match (r.contest holder type tag).run notices with
        | (.ok (), after) => (.ok (), (r.dropClass holder.prototype?, after))
        | (.error fault, after) => (.error fault, (r, after)) := by
  rw [seize, run_bind, run_get]
  dsimp only
  cases r.rival? c tag with
  | none => rfl
  | some holder =>
    have reported : (Edit.reportBy fun r => r.contest holder type tag).run (r, notices) =
      (((r.contest holder type tag).run notices).1,
        (r, ((r.contest holder type tag).run notices).2)) := rfl
    dsimp only
    rw [run_bind, reported]
    cases (r.contest holder type tag).run notices with
    | mk result after => cases result <;> rfl

theorem install_run (r : Registry) (c : Class) (e : Entry) (existing : Option Entry)
    (notices : List Notice) :
    (install c e existing).run (r, notices) =
      (.ok (), ((r.dropTag ((existing.map Entry.tag).filter (· != e.tag))).store c e,
        notices ++ [.entry ⟨r.name, if existing.isSome then .replaced e.tag (holderName e)
          else .registered e.tag (holderName e)⟩])) := by
  rw [← name_dropTag r ((existing.map Entry.tag).filter (· != e.tag))]
  rfl

/-- Changes that are made one by one come to what a binding comes to that is decided beforehand:
no check can fail once something is changed. -/
theorem bindInPlace_run (r : Registry) (type : TypeRef) (tag : String) (codec : Codec)
    (pickled : Bool) (notices : List Notice) :
    (bindInPlace type tag codec pickled).run (r, notices) =
      match (r.bind type tag codec pickled).run notices with
      | (.ok bound, after) => (.ok (), (bound, after))
      | (.error fault, after) => (.error fault, (r, after)) := by
  by_cases reserved : tag = fallbackTag
  · subst reserved
    rfl
  have free : (tag == fallbackTag) = false := beq_eq_false_iff_ne.2 reserved
  rw [bindInPlace, free, if_neg Bool.false_ne_true]
  cases own : type.prototype with
  | none =>
    simp only [bind, run_bind, accept, free, own, Bool.false_eq_true, if_false]
    rfl
  | some c =>
    dsimp only
    rw [run_bind, run_get]
    dsimp only
    cases there : (r.byClass.find? c).any fun e => e.tag == tag && e.does codec pickled with
    | true =>
      rw [bind_same_run own reserved there]
      rfl
    | false =>
      rw [if_neg Bool.false_ne_true, run_bind, seize_run]
      cases rivalled : r.rival? c tag with
      | none =>
        dsimp only
        rw [bind_unrivalled_run own reserved rivalled there, install_run, rebind, rivalled]
        rfl
      | some holder =>
        dsimp only
        rw [bind_rivalled_run own reserved rivalled there, contest_run]
        by_cases refused : r.duplicateTags = .error
        · rw [if_pos refused, if_pos refused]
        · rw [if_neg refused, if_neg refused]
          dsimp only
          rw [install_run, rebind, rivalled, name_dropClass]
          rfl

/-- Why a type cannot be bound to a tag, and what is said then. -/
inductive Refuses (r : Registry) (type : TypeRef) (tag : String) : Fault → Prop where
  | reserved (same : tag = fallbackTag) : Refuses r type tag (.registry (.reservedTag tag))
  | shapeless (free : tag ≠ fallbackTag) (none : type.prototype = none) :
    Refuses r type tag (noPrototype type)
  | taken {c : Class} {holder : Entry} (free : tag ≠ fallbackTag) (own : type.prototype = some c)
      (strict : r.duplicateTags = .error) (held : r.byTag.find? tag = some holder)
      (other : holder.prototype? ≠ some c) :
    Refuses r type tag (.registry (.duplicateTag tag (holderName holder) type.name))

theorem refuses_reserved_iff {r : Registry} {type : TypeRef} {fault : Fault} :
    r.Refuses type fallbackTag fault ↔ fault = .registry (.reservedTag fallbackTag) := by
  constructor
  · rintro (same | ⟨free, -⟩ | ⟨free, -⟩)
    · rfl
    · exact absurd rfl free
    · exact absurd rfl free
  · rintro rfl
    exact .reserved rfl

theorem refuses_shapeless_iff {r : Registry} {type : TypeRef} {tag : String} {fault : Fault}
    (free : tag ≠ fallbackTag) (none : type.prototype = none) :
    r.Refuses type tag fault ↔ fault = noPrototype type := by
  constructor
  · rintro (same | - | ⟨-, own, -⟩)
    · exact absurd same free
    · rfl
    · cases none.symm.trans own
  · rintro rfl
    exact .shapeless free none

theorem refuses_taken_iff {r : Registry} {type : TypeRef} {tag : String} {c : Class} {fault : Fault}
    (free : tag ≠ fallbackTag) (own : type.prototype = some c) :
    r.Refuses type tag fault ↔ r.duplicateTags = .error ∧ ∃ holder, r.rival? c tag = some holder ∧
      fault = .registry (.duplicateTag tag (holderName holder) type.name) := by
  constructor
  · rintro (same | ⟨-, none⟩ | ⟨-, own', strict, held, other⟩)
    · exact absurd same free
    · cases none.symm.trans own
    · cases own.symm.trans own'
      exact ⟨strict, _, Option.filter_eq_some_iff.2 ⟨held, bne_iff_ne.2 other⟩, rfl⟩
  · rintro ⟨strict, holder, rivalled, rfl⟩
    obtain ⟨held, other⟩ := Option.filter_eq_some_iff.1 rivalled
    exact .taken free own strict held (bne_iff_ne.1 other)

/-- A binding fails exactly where there is a reason to refuse it, and has reported nothing then. -/
theorem Consistent.bind_error_iff {r : Registry} (h : r.Consistent) {type : TypeRef} {tag : String}
    {codec : Codec} {pickled : Bool} {notices after : List Notice} {fault : Fault} :
    (r.bind type tag codec pickled).run notices = (.error fault, after) ↔
      r.Refuses type tag fault ∧ after = notices := by
  by_cases reserved : tag = fallbackTag
  · subst reserved
    rw [bind_reserved_run, refuses_reserved_iff, Prod.mk.injEq, Except.error.injEq, eq_comm,
      eq_comm (a := notices)]
  cases own : type.prototype with
  | none =>
    have free : (tag == fallbackTag) = false := beq_eq_false_iff_ne.2 reserved
    have ran :
        (r.bind type tag codec pickled).run notices = (.error (noPrototype type), notices) := by
      simp only [bind, run_bind, accept, free, own, Bool.false_eq_true, if_false]
      rfl
    rw [ran, refuses_shapeless_iff reserved own, Prod.mk.injEq, Except.error.injEq, eq_comm,
      eq_comm (a := notices)]
  | some c =>
    rw [refuses_taken_iff reserved own]
    cases there : (r.byClass.find? c).any fun e => e.tag == tag && e.does codec pickled with
    | true =>
      -- what is bound already holds the tag itself, so that the tag has no other holder
      obtain ⟨e, found, does⟩ := (Option.any_eq_true _ _).1 there
      have tagged : e.tag = tag := beq_iff_eq.1 (Bool.and_eq_true_iff.1 does).1
      have unrivalled := h.rival?_own (h.ofClass c e found).2 found
      rw [bind_same_run own reserved there, ← tagged, unrivalled]
      constructor
      · intro failed
        cases failed
      · rintro ⟨⟨-, holder, ⟨⟩, -⟩, -⟩
    | false =>
      cases rivalled : r.rival? c tag with
      | none =>
        rw [bind_unrivalled_run own reserved rivalled there]
        constructor
        · intro failed
          cases failed
        · rintro ⟨⟨-, holder, ⟨⟩, -⟩, -⟩
      | some holder =>
        rw [bind_rivalled_run own reserved rivalled there]
        split
        next strict =>
          constructor
          · intro failed
            cases failed
            exact ⟨⟨strict, holder, rfl, rfl⟩, rfl⟩
          · rintro ⟨⟨-, _, ⟨⟩, rfl⟩, rfl⟩
            rfl
        next lenient =>
          constructor
          · intro failed
            cases failed
          · rintro ⟨⟨strict, -⟩, -⟩
            exact absurd strict lenient

/-- A type is refused, for one of three reasons, exactly if binding it fails, and then the registry
is as it was, with all it remembers, and nothing was said: not even a program that changes one index
after the other has changed any when it fails. A taken tag is the reason exactly where the policy
forbids to take it, the type could be bound, and the tag is not reserved. -/
theorem refusal_changes_nothing (options : Options) {calls : List Call} {r : Registry}
    (reached : (new options).run calls = r) {call : Call} {type : TypeRef} {entry : Entry}
    (asked : call.binding? r.fallback = some entry) (typed : entry.type = some type) :
    (∀ fault, (r.perform call).answer = .bound (.error fault) ↔ r.Refuses type entry.tag fault) ∧
      (∀ fault, (r.perform call).answer = .bound (.error fault) →
        (r.perform call).registry = r ∧ (r.perform call).notices = [] ∧
          (bindInPlace type entry.tag entry.codec entry.pickled).run (r, []) =
            (.error fault, (r, []))) ∧
      ((∃ bound requested, (r.perform call).answer =
          .bound (.error (.registry (.duplicateTag entry.tag bound requested)))) ↔
        r.duplicateTags = .error ∧
          (∃ holder, r.byTag.find? entry.tag = some holder ∧
            holder.prototype? ≠ type.prototype) ∧
          entry.tag ≠ fallbackTag ∧ type.prototype.isSome = true) := by
  have consistent : r.Consistent := reached ▸ ((sound_new options).run calls).consistent
  obtain ⟨type', typed', performed⟩ := perform_entry asked
  cases typed.symm.trans typed'
  have fails {fault : Fault} : (r.perform call).answer = .bound (.error fault) ↔
      (r.bind type entry.tag entry.codec entry.pickled).run [] = (.error fault, []) := by
    rw [performed, binding]
    cases ran : (r.bind type entry.tag entry.codec entry.pickled).run [] with
    | mk result after =>
      cases result with
      | ok bound => constructor <;> intro failed <;> cases failed
      | error thrown =>
        obtain ⟨-, rfl⟩ := consistent.bind_error_iff.1 ran
        exact ⟨fun same => by cases same; rfl, fun same => by cases same; rfl⟩
  have refused {fault : Fault} : (r.perform call).answer = .bound (.error fault) ↔
      r.Refuses type entry.tag fault := by
    rw [fails, consistent.bind_error_iff, and_iff_left rfl]
  refine ⟨fun fault => refused, fun fault failed => ?_, ?_⟩
  · have ran := fails.1 failed
    rw [bindInPlace_run, performed, binding, ran]
    exact ⟨rfl, rfl, rfl⟩
  · constructor
    · rintro ⟨bound, requested, failed⟩
      cases refused.1 failed with
      | taken free own strict held other =>
        exact ⟨strict, ⟨_, held, own ▸ other⟩, free, own ▸ rfl⟩
    · rintro ⟨strict, ⟨holder, held, other⟩, free, shaped⟩
      obtain ⟨c, own⟩ := Option.isSome_iff_exists.1 shaped
      exact ⟨_, _, refused.2 (.taken free own strict held (own ▸ other))⟩

namespace Sample

def guarded : Registry := (new { duplicateTags := some .error }).run bindings

/-- A bound type is to move to a tag that another type holds: it keeps its own tag, as that one
does. -/
theorem move_refused :
    takeover.binding? guarded.fallback = some box ∧
      (guarded.perform takeover).answer =
        .bound (.error (.registry (.duplicateTag "Shape" "Shape" "Box"))) ∧
      (guarded.perform takeover).registry = guarded ∧
      (guarded.perform takeover).notices = [] ∧ guarded.tags = ["Shape", "Square"] ∧
      (bindInPlace ⟨"Box", some square⟩ "Shape" box.codec true).run (guarded, []) =
        (.error (.registry (.duplicateTag "Shape" "Shape" "Box")), (guarded, [])) := by
  have asked : takeover.binding? guarded.fallback = some box := rfl
  have reached : (new { duplicateTags := some .error }).run bindings = guarded := rfl
  have typed : box.type = some ⟨"Box", some square⟩ := rfl
  obtain ⟨refused, kept, -⟩ := refusal_changes_nothing _ reached asked typed
  have failed := (refused _).2 (.taken (by decide) rfl rfl rfl (by decide))
  obtain ⟨registry, notices, inPlace⟩ := kept _ failed
  exact ⟨asked, failed, registry, notices, rfl, inPlace⟩

end Sample

end Marshal.Registry
