import Marshal.Proofs.Registry.Parallel
import Marshal.Proofs.Registry.Pickled

namespace Marshal

theorem Assoc.keys_erase {κ α : Type} [BEq κ] (entries : Assoc κ α) (erased : κ) :
    (entries.erase erased).keys = entries.keys.filter fun k => !(k == erased) := by
  rw [Assoc.keys, Assoc.keys, List.filter_map]
  rfl

namespace Registry

open Marshal.Effect

/-- The warning that a tag is taken from another type, if the policy asks for one. -/
def warnings (r : Registry) (holder : Entry) (type : TypeRef) (tag : String) : List Notice :=
  if r.duplicateTags = .warn then
    [.line .warn
      s!"[Registry] {r.name}: tag \"{tag}\" rebound from {holderName holder} to {type.name}"]
  else []

theorem contest_run (r : Registry) (holder : Entry) (type : TypeRef) (tag : String)
    (notices : List Notice) :
    (r.contest holder type tag).run notices =
      if r.duplicateTags = .error then
        (.error (.registry (.duplicateTag tag (holderName holder) type.name)), notices)
      else
        (.ok (), notices ++ r.warnings holder type tag ++
          [.entry ⟨r.name, .conflict tag type.name (holderName holder)⟩]) := by
  unfold contest warnings
  cases r.duplicateTags with
  | overwrite | other => simp only [reduceCtorEq, if_false, List.append_nil]; rfl
  | warn => rfl
  | error => rfl

theorem bind_rivalled_run {r : Registry} {type : TypeRef} {tag : String} {c : Class} {codec : Codec}
    {pickled : Bool} {holder : Entry} (own : type.prototype = some c)
    (unreserved : tag ≠ fallbackTag) (rivalled : r.rival? c tag = some holder)
    (new : ((r.byClass.find? c).any fun e => e.tag == tag && e.does codec pickled) = false)
    (notices : List Notice) :
    (r.bind type tag codec pickled).run notices =
      if r.duplicateTags = .error then
        (.error (.registry (.duplicateTag tag (holderName holder) type.name)), notices)
      else
        (.ok (r.rebind c { type := some type, tag, codec, pickled }),
          notices ++ r.warnings holder type tag ++
            [.entry ⟨r.name, .conflict tag type.name (holderName holder)⟩] ++
            [.entry ⟨r.name, if (r.byClass.find? c).isSome then .replaced tag type.name
              else .registered tag type.name⟩]) := by
  have free : (tag == fallbackTag) = false := beq_eq_false_iff_ne.2 unreserved
  by_cases refused : r.duplicateTags = .error
  · simp only [bind, run_bind, accept, free, own, new, rivalled, contest_run, refused,
      Bool.false_eq_true, if_false, if_true]
  · simp only [bind, run_bind, accept, free, own, new, rivalled, contest_run, refused,
      Bool.false_eq_true, if_false]
    rfl

/-- What is in the registry after an entry took the place of the entries that its class and its tag
had. The tag stays where it is if it was bound, and comes last if it was not. -/
structure Rebound (r r' : Registry) (c : Class) (new : Entry) : Prop where
  byClass : ∀ k e, r'.byClass.find? k = some e ↔
    k = c ∧ e = new ∨ k ≠ c ∧ e.tag ≠ new.tag ∧ r.byClass.find? k = some e
  byTag : ∀ t e, r'.byTag.find? t = some e ↔
    t = new.tag ∧ e = new ∨ t ≠ new.tag ∧ e.prototype? ≠ some c ∧ r.byTag.find? t = some e
  tags : r'.tags =
    (r.tags.filter fun t => t = new.tag ∨ (r.byClass.find? c).map Entry.tag ≠ some t) ++
      if new.tag ∈ r.tags then [] else [new.tag]
  settings : r.SameSettings r' ∧ r'.name = r.name

theorem tags_dropTag (r : Registry) (gone : Option String) :
    (r.dropTag gone).tags = r.tags.filter fun t => gone ≠ some t := by
  cases gone with
  | none => simp [dropTag]
  | some tag =>
    rw [tags, dropTag, Assoc.keys_erase]
    apply List.filter_congr
    intro t _
    by_cases same : t = tag
    · simp [same]
    · simp [same, Ne.symm same]

theorem tags_rebind (r : Registry) (c : Class) (e : Entry) :
    (r.rebind c e).tags =
      (r.tags.filter fun t => t = e.tag ∨ (r.byClass.find? c).map Entry.tag ≠ some t) ++
        if e.tag ∈ r.tags then [] else [e.tag] := by
  have kept : ((r.dropClass ((r.rival? c e.tag).bind Entry.prototype?)).dropTag
      (((r.byClass.find? c).map Entry.tag).filter (· != e.tag))).tags =
        r.tags.filter fun t => t = e.tag ∨ (r.byClass.find? c).map Entry.tag ≠ some t := by
    rw [tags_dropTag, tags, byTag_dropClass, ← tags]
    apply List.filter_congr
    intro t _
    rw [decide_eq_decide, Ne, Option.filter_eq_some_iff, bne_iff_ne, not_and_or, not_not, or_comm]
  have known : e.tag ∈ (r.tags.filter fun t =>
      t = e.tag ∨ (r.byClass.find? c).map Entry.tag ≠ some t) ↔ e.tag ∈ r.tags := by
    rw [List.mem_filter, decide_eq_true_iff]
    exact and_iff_left (.inl rfl)
  rw [rebind, tags, store, Assoc.keys_set, ← tags, kept]
  by_cases there : e.tag ∈ r.tags
  · rw [if_pos (known.2 there), if_pos there, List.append_nil]
  · rw [if_neg (mt known.1 there), if_neg there]

theorem Consistent.rebound {r : Registry} (h : r.Consistent) {c : Class} {new : Entry} :
    Rebound r (r.rebind c new) c new where
  byClass := by
    intro k e
    rw [find?_byClass_rebind]
    split_ifs with same loser
    · simp [same, eq_comm]
    · simp only [same, false_and, false_or, ne_eq, not_false_eq_true, true_and,
        false_iff, not_and]
      exact fun other found => other ((h.loser_iff found same).1 loser)
    · simp only [same, false_and, false_or, ne_eq, not_false_eq_true, true_and, iff_and_self]
      exact fun found taken => loser ((h.loser_iff found same).2 taken)
  byTag := by
    intro t e
    rw [find?_byTag_rebind]
    split_ifs with same former
    · simp [same, eq_comm]
    · simp only [same, false_and, false_or, ne_eq, not_false_eq_true, true_and,
        false_iff, not_and]
      intro other held
      obtain ⟨-, k, own, -⟩ := h.ofTag t e held
      exact other (own.trans (congrArg some ((h.former_iff held own).1 former)))
    · simp only [same, false_and, false_or, ne_eq, not_false_eq_true, true_and, iff_and_self]
      exact fun held own => former ((h.former_iff held own).2 rfl)
  tags := tags_rebind r c new
  settings := sameSettings_rebind r c new

end Registry

/-- Whether two entries hold the same: the same two routines under one tag, or whole values of both
types under it. -/
def Entry.Repeats (old new : Entry) : Prop :=
  old.tag = new.tag ∧
    ((old.codec.serialize.isSame new.codec.serialize = true ∧
        old.codec.deserialize.isSame new.codec.deserialize = true) ∨
      old.pickled = true ∧ new.pickled = true)

theorem Entry.repeats_iff {old new : Entry} {bytes bytes' : ByteCodec}
    (ownOld : old.withFallback bytes = old) (ownNew : new.withFallback bytes' = new) :
    old.Repeats new ↔ (old.tag == new.tag && old.does new.codec new.pickled) = true := by
  have strange : ∀ {e : Entry} {bytes : ByteCodec}, e.withFallback bytes = e → e.pickled = true →
      e.codec.serialize.key = none := by
    intro e bytes own pickled
    rw [← own, withFallback_of_pickled pickled]
    rfl
  rw [Repeats, Bool.and_eq_true, beq_iff_eq, does]
  refine and_congr_right fun _ => ?_
  cases whole : old.pickled with
  | true =>
    have different : old.codec.serialize.isSame new.codec.serialize = false := by
      rw [Routine.isSame, strange ownOld whole]
      rfl
    cases new.pickled <;> simp [different]
  | false =>
    cases whole' : new.pickled with
    | true =>
      have different : old.codec.serialize.isSame new.codec.serialize = false := by
        rw [Routine.isSame, strange ownNew whole']
        cases old.codec.serialize.key <;> rfl
      simp [different]
    | false => simp

/-- Routines are known by their keys: this is what each key stands for. -/
abbrev Meaning := String → Value → Action Value

def Codec.Means (meaning : Meaning) (codec : Codec) : Prop :=
  (∀ k, codec.serialize.key = some k → codec.serialize.run = meaning k) ∧
    ∀ k, codec.deserialize.key = some k → codec.deserialize.run = meaning k

def Call.Means (meaning : Meaning) : Call → Prop
  | .register _ _ codec => codec.Means meaning
  | _ => True

theorem Routine.run_eq_of_isSame {a b : Routine} {f : Meaning} (same : a.isSame b = true)
    (left : ∀ k, a.key = some k → a.run = f k) (right : ∀ k, b.key = some k → b.run = f k) :
    a.run = b.run := by
  obtain ⟨known, key⟩ := Bool.and_eq_true_iff.1 same
  obtain ⟨k, hk⟩ := Option.isSome_iff_exists.1 known
  rw [left k hk, right k (beq_iff_eq.1 key ▸ hk)]

theorem Pickle.means_codec (meaning : Meaning) (bytes : ByteCodec) (type : Option TypeRef) :
    (Pickle.codec bytes type).Means meaning :=
  ⟨fun _ key => (nomatch key), fun _ key => (nomatch key)⟩

theorem Pickle.codec_congr (bytes : ByteCodec) {type type' : Option TypeRef}
    (same : type.bind TypeRef.prototype = type'.bind TypeRef.prototype) :
    Pickle.codec bytes type = Pickle.codec bytes type' := by
  unfold Pickle.codec
  rw [same]

theorem Entry.Repeats.actsAs {old new : Entry} (h : old.Repeats new) {bytes : ByteCodec}
    {meaning : Meaning} (class_eq : old.prototype? = new.prototype?)
    (ownOld : old.withFallback bytes = old) (ownNew : new.withFallback bytes = new)
    (meansOld : old.codec.Means meaning) (meansNew : new.codec.Means meaning) :
    old.ActsAs new := by
  obtain ⟨tag, ⟨writing, reading⟩ | ⟨whole, whole'⟩⟩ := h
  · exact ⟨tag, Routine.run_eq_of_isSame writing meansOld.1 meansNew.1,
      Routine.run_eq_of_isSame reading meansOld.2 meansNew.2⟩
  · have codecs : old.codec = new.codec := by
      rw [← ownOld, ← ownNew, withFallback_of_pickled whole, withFallback_of_pickled whole']
      exact Pickle.codec_congr bytes class_eq
    exact ⟨tag, congrArg (·.serialize.run) codecs, congrArg (·.deserialize.run) codecs⟩

theorem findSome?_rel {α β : Type} {R : β → β → Prop} {f g : α → Option β}
    (h : ∀ a, Option.Rel R (f a) (g a)) (items : List α) :
    Option.Rel R (items.findSome? f) (items.findSome? g) := by
  induction items with
  | nil => exact .none
  | cons a rest ih =>
    have first := h a
    rw [List.findSome?_cons, List.findSome?_cons]
    cases hf : f a <;> cases hg : g a <;> rw [hf, hg] at first <;> cases first
    · exact ih
    next same => exact .some same

/-- One name may be shown for another one where it is the type under the tag. -/
def renamed (tag before after : String) : Naming :=
  fun t n n' => n = n' ∨ t = tag ∧ n = before ∧ n' = after

namespace Registry

open Marshal.Effect

theorem entryFor_actsAs {r r' : Registry} (fallback : r'.fallbackEntry = r.fallbackEntry)
    (classes : ∀ c, Option.Rel Entry.ActsAs (r.byClass.find? c) (r'.byClass.find? c)) (g : Graph)
    (v : Value) : (r.entryFor g v).ActsAs (r'.entryFor g v) := by
  unfold entryFor
  cases g.classOf? v with
  | none => exact fallback ▸ .refl _
  | some start =>
    have nearest := findSome?_rel classes start.lineage
    dsimp only
    rw [Registry.nearest, Registry.nearest, fallback]
    cases first : start.lineage.findSome? (r.byClass.find? ·) <;>
      cases second : start.lineage.findSome? (r'.byClass.find? ·) <;>
      rw [first, second] at nearest <;> cases nearest
    · exact .refl _
    next same => exact same

/-- An entry that acts as the one it takes the place of changes nothing but a name. -/
theorem Consistent.parallel_rebind {r : Registry} (h : r.Consistent) {c : Class} {old new : Entry}
    (found : r.byClass.find? c = some old) (acts : old.ActsAs new) :
    Parallel (renamed new.tag old.typeName new.typeName) r (r.rebind c new) := by
  obtain ⟨own, held⟩ := h.ofClass c old found
  obtain ⟨settings, name⟩ := sameSettings_rebind r c new
  have unrivalled : r.rival? c new.tag = none := acts.tag ▸ h.rival?_own held found
  have fallback : (r.rebind c new).fallbackEntry = r.fallbackEntry := by
    rw [fallbackEntry, fallbackEntry, settings.fallback]
  have classes : ∀ k, Option.Rel Entry.ActsAs (r.byClass.find? k)
      ((r.rebind c new).byClass.find? k) := by
    intro k
    rw [find?_byClass_rebind, unrivalled, Option.bind_none, if_neg (Option.some_ne_none k).symm]
    split
    next same =>
      rw [same, found]
      exact .some acts
    next =>
      cases r.byClass.find? k with
      | none => exact .none
      | some e => exact .some (.refl e)
  refine ⟨⟨name.symm, settings.maxDepth.symm, entryFor_actsAs fallback classes⟩, fun tag => ?_⟩
  have unchanged : ∀ e : Option Entry, Option.Rel
      (fun e e' => e.ActsAs e' ∧ renamed new.tag old.typeName new.typeName e.tag e.typeName
        e'.typeName) e e := by
    intro e
    cases e with
    | none => exact .none
    | some e => exact .some ⟨.refl e, .inl rfl⟩
  rw [entryForTag?, entryForTag?, fallback, find?_byTag_rebind, found, Option.map_some, acts.tag]
  split
  · exact unchanged _
  · split
    next same =>
      rw [same, ← acts.tag, held]
      exact .some ⟨acts, .inr ⟨rfl, rfl, rfl⟩⟩
    next other =>
      rw [if_neg fun same => other (Option.some.inj same).symm]
      exact unchanged _

/-- Registries that write every value alike, and read everything alike up to a name that may be
shown. -/
structure Interchangeable (naming : Naming) (r r' : Registry) : Prop where
  serialize : ∀ stack g v,
    (r.perform (.serialize stack g v)).answer = (r'.perform (.serialize stack g v)).answer ∧
      (r.perform (.serialize stack g v)).notices = (r'.perform (.serialize stack g v)).notices
  deserialize : ∀ stack g tag data, ∃ result result' after,
    (r.perform (.deserialize stack g tag data)).answer = .value result after ∧
      (r'.perform (.deserialize stack g tag data)).answer = .value result' after ∧
      SameResult naming result result' ∧
      List.Forall₂ (Notice.SameBut naming) (r.perform (.deserialize stack g tag data)).notices
        (r'.perform (.deserialize stack g tag data)).notices

theorem Parallel.interchangeable {naming : Naming} {r r' : Registry} (h : Parallel naming r r')
    (left : r.Remembers) (right : r'.Remembers) : Interchangeable naming r r' where
  serialize := fun stack g v =>
    (InStep.serialize h.toTwin v).working_eq left right stack g .tree
  deserialize := fun stack g tag data =>
    (InStep.deserialize h tag data).working left right stack g .value

theorem bind_reserved_run (r : Registry) (type : TypeRef) (codec : Codec) (pickled : Bool)
    (notices : List Notice) :
    (r.bind type fallbackTag codec pickled).run notices =
      (.error (.registry (.reservedTag fallbackTag)), notices) := rfl

/-- What is logged when an entry is put in under a class: the type that loses the tag, if another
class has it, and then whether the class was bound before. -/
def bindingLog (r : Registry) (c : Class) (new : Entry) : List LogEntry :=
  (((r.byTag.find? new.tag).filter (·.prototype? != some c)).toList.map fun holder =>
      ⟨r.name, .conflict new.tag (holderName new) (holderName holder)⟩) ++
    [⟨r.name, if (r.byClass.find? c).isSome then .replaced new.tag (holderName new)
      else .registered new.tag (holderName new)⟩]

theorem entries_warnings (r : Registry) (holder : Entry) (type : TypeRef) (tag : String) :
    (r.warnings holder type tag).filterMap Notice.entry? = [] := by
  unfold warnings
  split <;> rfl

theorem perform_entry {r : Registry} {call : Call} {new : Entry}
    (asked : call.binding? r.fallback = some new) :
    ∃ type, new.type = some type ∧
      r.perform call = r.binding (r.bind type new.tag new.codec new.pickled) := by
  cases call with
  | register type tag codec =>
    cases asked
    exact ⟨type, rfl, rfl⟩
  | registerPickled type tag =>
    cases asked
    exact ⟨type, rfl, rfl⟩
  | _ => cases asked

theorem bind_outcome {r : Registry} {call : Call} {new : Entry} {c : Class}
    (asked : call.binding? r.fallback = some new) (own : new.prototype? = some c)
    (returned : (r.perform call).answer = .bound (.ok ())) :
    if ((r.byClass.find? c).any fun old => old.tag == new.tag && old.does new.codec new.pickled)
      then (r.perform call).registry = r ∧ (r.perform call).notices = []
      else (r.perform call).registry = r.rebind c new ∧
        (r.perform call).notices.filterMap Notice.entry? = r.bindingLog c new := by
  obtain ⟨type, typed, performed⟩ := perform_entry asked
  have proto : type.prototype = some c := by rwa [Entry.prototype?, typed] at own
  have shown : holderName new = type.name := by rw [holderName, typed]; rfl
  have entry : (⟨some type, new.tag, new.codec, new.pickled⟩ : Entry) = new := by rw [← typed]
  have unreserved : new.tag ≠ fallbackTag := by
    intro reserved
    rw [performed, binding, reserved, bind_reserved_run] at returned
    cases returned
  rw [performed] at returned ⊢
  cases there : (r.byClass.find? c).any fun old =>
      old.tag == new.tag && old.does new.codec new.pickled with
  | true =>
    rw [if_pos rfl, binding, bind_same_run proto unreserved there]
    exact ⟨rfl, rfl⟩
  | false =>
    rw [if_neg Bool.false_ne_true, bindingLog, shown]
    cases rivalled : r.rival? c new.tag with
    | none =>
      have unheld : (r.byTag.find? new.tag).filter (·.prototype? != some c) = none := rivalled
      rw [binding, bind_unrivalled_run proto unreserved rivalled there, entry, unheld]
      exact ⟨rfl, rfl⟩
    | some holder =>
      have held : (r.byTag.find? new.tag).filter (·.prototype? != some c) = some holder := rivalled
      rw [binding, bind_rivalled_run proto unreserved rivalled there, entry] at returned ⊢
      by_cases refused : r.duplicateTags = .error
      · rw [if_pos refused] at returned
        cases returned
      · rw [if_neg refused, held, List.nil_append, List.filterMap_append, List.filterMap_append,
          entries_warnings]
        exact ⟨rfl, rfl⟩

/-- What every bound entry is: a pickled one uses the byte codec of the registry, and the keys of
the routines mean what they should. -/
def Genuine (meaning : Meaning) (bytes : ByteCodec) (e : Entry) : Prop :=
  e.withFallback bytes = e ∧ e.codec.Means meaning

theorem genuine_withFallback {meaning : Meaning} {e : Entry} (means : e.codec.Means meaning)
    (bytes : ByteCodec) : Genuine meaning bytes (e.withFallback bytes) := by
  refine ⟨e.withFallback_withFallback bytes, ?_⟩
  unfold Entry.withFallback
  split
  · exact Pickle.means_codec meaning bytes e.type
  · exact means

theorem genuine_entry {meaning : Meaning} {call : Call} (means : call.Means meaning)
    {bytes : ByteCodec} {e : Entry} (asked : call.binding? bytes = some e) :
    Genuine meaning bytes e := by
  cases call with
  | register type tag codec =>
    cases asked
    exact ⟨rfl, means⟩
  | registerPickled type tag =>
    cases asked
    exact ⟨rfl, Pickle.means_codec meaning bytes (some type)⟩
  | _ => cases asked

theorem bound_genuine_run {meaning : Meaning} (options : Options) {calls : List Call}
    (means : ∀ call ∈ calls, call.Means meaning) :
    Bound (Genuine meaning) ((new options).run calls) := by
  refine Bound.run (fun _ bytes e genuine => genuine_withFallback genuine.2 bytes) ?_
    (sound_new options) fun call mem bytes e asked => genuine_entry (means call mem) asked
  intro tag e held
  cases held

/-- A registration that returns finds the same binding there and leaves everything as it is, or it
puts its own in, takes out what the class and the tag had before, and says so. Where it finds the
same, putting its own in would have made no difference, but for a name that is shown. -/
theorem effect_of_registration (options : Options) {calls : List Call} {call : Call}
    {meaning : Meaning} (means : ∀ asked ∈ call :: calls, asked.Means meaning) {r : Registry}
    (reached : (Registry.new options).run calls = r) {new : Entry} {c : Class}
    (asked : call.binding? r.fallback = some new) (own : new.prototype? = some c)
    (returned : (r.perform call).answer = .bound (.ok ())) :
    ((r.perform call).registry = r ∧ (r.perform call).notices = [] ↔
        ∃ old, r.byClass.find? c = some old ∧ old.Repeats new) ∧
      (∀ old, r.byClass.find? c = some old → old.Repeats new →
        Interchangeable (renamed new.tag old.typeName new.typeName) r (r.rebind c new)) ∧
      ((∀ old, r.byClass.find? c = some old → ¬ old.Repeats new) →
        Rebound r (r.perform call).registry c new ∧
          (r.perform call).notices.filterMap Notice.entry? = r.bindingLog c new) := by
  have sound : r.Sound := reached ▸ (sound_new options).run calls
  have genuine : Bound (Genuine meaning) r :=
    reached ▸ bound_genuine_run options fun call mem => means call (List.mem_cons_of_mem _ mem)
  have genuineNew : Genuine meaning r.fallback new :=
    genuine_entry (means call List.mem_cons_self) asked
  have genuineOld : ∀ old, r.byClass.find? c = some old → Genuine meaning r.fallback old :=
    fun old found => genuine _ old (sound.consistent.ofClass c old found).2
  have there : (r.byClass.find? c).any (fun old =>
      old.tag == new.tag && old.does new.codec new.pickled) = true ↔
        ∃ old, r.byClass.find? c = some old ∧ old.Repeats new := by
    -- the check compares routines, which for entries that calls put in is to repeat them
    rw [Option.any_eq_true]
    refine exists_congr fun old => and_congr_right fun found => ?_
    exact (Entry.repeats_iff (genuineOld old found).1 genuineNew.1).symm
  have outcome := bind_outcome asked own returned
  refine ⟨?_, ?_, ?_⟩
  · rw [← there]
    constructor
    · rintro ⟨-, silent⟩
      by_contra absent
      rw [if_neg absent, silent, bindingLog] at outcome
      simp at outcome
    · intro present
      rwa [if_pos present] at outcome
  · intro old found same
    have class_eq : old.prototype? = new.prototype? :=
      (sound.consistent.ofClass c old found).1.trans own.symm
    have acts := same.actsAs class_eq (genuineOld old found).1 genuineNew.1 (genuineOld old found).2
      genuineNew.2
    exact (sound.consistent.parallel_rebind found acts).interchangeable sound.remembers
      (remembers_rebind r c new)
  · intro different
    have absent := mt there.1 fun ⟨old, found, same⟩ => different old found same
    rw [if_neg absent] at outcome
    rw [outcome.1]
    exact ⟨sound.consistent.rebound, outcome.2⟩

namespace Sample

/-- Squares go under the tag of shapes, whole and by another name. -/
def takeover : Call := .registerPickled ⟨"Box", some square⟩ "Shape"

def box : Entry :=
  ⟨some ⟨"Box", some square⟩, "Shape", Pickle.codec .messagePack (some ⟨"Box", some square⟩), true⟩

def again : Call := .register ⟨"Form", some shape⟩ "Shape" plain

def form : Entry := ⟨some ⟨"Form", some shape⟩, "Shape", plain, false⟩

theorem means_plain {call : Call} (first : call.Means fun _ => pure) :
    ∀ asked ∈ call :: bindings, asked.Means fun _ => pure := by
  have plain : plain.Means fun _ => pure := ⟨fun _ _ => rfl, fun _ _ => rfl⟩
  intro asked mem
  simp only [bindings, List.mem_cons, List.not_mem_nil, or_false] at mem
  rcases mem with rfl | rfl | rfl
  · exact first
  · exact plain
  · exact plain

/-- The square takes the tag of the shape, whose class is bound no more. Binding the shape again
changes nothing. -/
theorem tag_taken :
    takeover.binding? .messagePack = some box ∧ again.binding? .messagePack = some form ∧
      (((new {}).run bindings).perform takeover).answer = .bound (.ok ()) ∧
      (((new {}).run bindings).perform again).answer = .bound (.ok ()) ∧
      (((new {}).run bindings).perform takeover).registry.byClass.find? shape = none ∧
      (((new {}).run bindings).perform takeover).registry.tags = ["Shape"] ∧
      (((new {}).run bindings).perform takeover).notices.filterMap Notice.entry? =
        [⟨"context", .conflict "Shape" "Box" "Shape"⟩, ⟨"context", .replaced "Shape" "Box"⟩] ∧
      (((new {}).run bindings).perform again).registry = (new {}).run bindings ∧
      Interchangeable (renamed "Shape" "Shape" "Form") ((new {}).run bindings)
        (((new {}).run bindings).rebind shape form) := by
  have wanted : takeover.binding? ((new {}).run bindings).fallback = some box := rfl
  have returned : (((new {}).run bindings).perform takeover).answer = .bound (.ok ()) := rfl
  have wanted' : again.binding? ((new {}).run bindings).fallback = some form := rfl
  have returned' : (((new {}).run bindings).perform again).answer = .bound (.ok ()) := rfl
  have means : takeover.Means fun _ => pure := trivial
  have means' : again.Means fun _ => pure := ⟨fun _ _ => rfl, fun _ _ => rfl⟩
  have held : ((new {}).run bindings).byClass.find? shape =
      some ⟨some ⟨"Shape", some shape⟩, "Shape", plain, false⟩ := rfl
  have same : Entry.Repeats ⟨some ⟨"Shape", some shape⟩, "Shape", plain, false⟩ form :=
    ⟨rfl, .inl ⟨rfl, rfl⟩⟩
  obtain ⟨-, -, taken⟩ :=
    effect_of_registration {} (means_plain means) rfl wanted (c := square) rfl returned
  obtain ⟨kept, interchangeable, -⟩ :=
    effect_of_registration {} (means_plain means') rfl wanted' (c := shape) rfl returned'
  obtain ⟨rebound, log⟩ := taken (by
    rintro old found ⟨tag, -⟩
    cases found
    exact absurd tag (by decide))
  refine ⟨wanted, wanted', returned, returned', ?_, rebound.tags, log, (kept.2 ⟨_, held, same⟩).1,
    interchangeable _ held same⟩
  rw [Option.eq_none_iff_forall_ne_some]
  intro e found
  rcases (rebound.byClass shape e).1 found with ⟨other, -⟩ | ⟨-, other, found⟩
  · exact absurd other (by decide)
  · cases found
    exact other rfl

end Sample

end Registry

end Marshal
