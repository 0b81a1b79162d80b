import Marshal.Proofs.Registry.Run
import Marshal.Registry.Request

namespace Marshal.Registry

open Marshal.Effect

section Replay

/-- Registers the type of an entry anew under its tag: a pickled one as pickled, any other one with
the codec of the entry. -/
def registerAgain (r : Registry) (e : Entry) : Reporting Registry :=
  match e.type with
  | none => return r
  | some type => if e.pickled then r.registerPickled type e.tag else r.register type e.tag e.codec

def replay (r : Registry) (entries : List Entry) : Reporting Registry :=
  entries.foldlM registerAgain r

def news (name : String) (e : Entry) : Notice := .entry ⟨name, .registered e.tag (holderName e)⟩

theorem registerAgain_run {copy : Registry} {e : Entry} {rest : List Entry}
    (admits : copy.Admits (e :: rest)) (notices : List Notice) :
    (copy.registerAgain e).run notices = (.ok (copy.adopt e), notices ++ [news copy.name e]) := by
  obtain ⟨unreserved, freeTag, c, own, freeClass⟩ := admits.free e List.mem_cons_self
  rw [adopt_eq_rebind own admits.blank freeTag freeClass]
  obtain ⟨type, typed, proto⟩ := Option.bind_eq_some_iff.1 own
  have told : holderName e = type.name := by rw [holderName, typed]; rfl
  rw [registerAgain, typed, Entry.withFallback, news, told]
  cases whole : e.pickled with
  | true =>
    dsimp only
    rw [if_pos rfl, if_pos rfl, registerPickled,
      bind_free_run _ true proto unreserved freeClass freeTag, typed]
  | false =>
    dsimp only
    rw [if_neg Bool.false_ne_true, if_neg Bool.false_ne_true, register,
      bind_free_run _ false proto unreserved freeClass freeTag, ← typed, ← whole]

theorem name_adopt (copy : Registry) (e : Entry) : (copy.adopt e).name = copy.name := by
  unfold adopt
  dsimp only
  split <;> rfl

/-- Registries with the same settings, up to their names. -/
structure SameSettings (r r' : Registry) : Prop where
  fallback : r'.fallback = r.fallback
  duplicateTags : r'.duplicateTags = r.duplicateTags
  maxDepth : r'.maxDepth = r.maxDepth

theorem SameSettings.trans {r r' r'' : Registry} (h : r.SameSettings r')
    (h' : r'.SameSettings r'') : r.SameSettings r'' :=
  ⟨h'.fallback.trans h.fallback, h'.duplicateTags.trans h.duplicateTags,
    h'.maxDepth.trans h.maxDepth⟩

theorem sameSettings_adopt (copy : Registry) (e : Entry) : copy.SameSettings (copy.adopt e) := by
  unfold adopt
  dsimp only
  split <;> exact ⟨rfl, rfl, rfl⟩

theorem sameSettings_foldl_adopt (copy : Registry) (entries : List Entry) :
    copy.SameSettings (entries.foldl adopt copy) := by
  induction entries generalizing copy with
  | nil => exact ⟨rfl, rfl, rfl⟩
  | cons e rest ih => exact (sameSettings_adopt copy e).trans (ih (copy.adopt e))

theorem sameSettings_copyWith (r : Registry) (name : String) :
    r.SameSettings (r.copyWith { name := some name }) := by
  have start : r.SameSettings (new (r.inherit { name := some name })) := ⟨rfl, rfl, rfl⟩
  exact start.trans (sameSettings_foldl_adopt _ _)

theorem byTag_adopt (copy : Registry) (e : Entry) :
    (copy.adopt e).byTag = copy.byTag.set e.tag (e.withFallback copy.fallback) := by
  unfold adopt
  dsimp only
  rw [Entry.tag_withFallback]
  split <;> rfl

theorem replay_run {copy : Registry} {entries : List Entry} (admits : copy.Admits entries)
    (notices : List Notice) :
    (copy.replay entries).run notices =
      (.ok (entries.foldl adopt copy), notices ++ entries.map (news copy.name)) := by
  induction entries generalizing copy notices with
  | nil => rw [List.map_nil, List.append_nil]; rfl
  | cons e rest ih =>
    rw [replay, List.foldlM_cons, run_bind, registerAgain_run admits]
    dsimp only
    rw [← replay, ih admits.tail, name_adopt, List.map_cons, List.append_assoc]
    rfl

theorem name_foldl_adopt (copy : Registry) (entries : List Entry) :
    (entries.foldl adopt copy).name = copy.name := by
  induction entries generalizing copy with
  | nil => rfl
  | cons e rest ih => rw [List.foldl_cons, ih, name_adopt]

theorem byTag_foldl_adopt {copy : Registry} {entries : List Entry} (admits : copy.Admits entries) :
    (entries.foldl adopt copy).byTag =
      copy.byTag ++ entries.map fun e => (e.tag, e.withFallback copy.fallback) := by
  induction entries generalizing copy with
  | nil => exact (List.append_nil copy.byTag).symm
  | cons e rest ih =>
    obtain ⟨-, freeTag, -⟩ := admits.free e List.mem_cons_self
    rw [List.foldl_cons, ih admits.tail, (sameSettings_adopt copy e).fallback, byTag_adopt,
      Assoc.set_of_find?_eq_none freeTag, List.map_cons, List.append_assoc]
    rfl

namespace Consistent

variable {r : Registry} (h : r.Consistent)

include h

theorem byTag_copyWith (overrides : Options) :
    (r.copyWith overrides).byTag =
      r.byTag.map fun entry => (entry.1, entry.2.withFallback (r.copyWith overrides).fallback) := by
  have admits := h.admits_values (r.inherit overrides)
  rw [copyWith_eq, byTag_foldl_adopt admits, (sameSettings_foldl_adopt _ _).fallback, Assoc.values,
    List.map_map]
  apply List.map_congr_left
  rintro ⟨tag, e⟩ mem
  dsimp only [Function.comp]
  rw [(h.ofTag _ _ (h.mem_byTag_iff.1 mem)).1]

theorem tags_copyWith (overrides : Options) : (r.copyWith overrides).tags = r.tags := by
  rw [tags, h.byTag_copyWith, Assoc.keys, List.map_map]
  rfl

theorem find?_byTag_copyWith (overrides : Options) (tag : String) :
    (r.copyWith overrides).byTag.find? tag =
      (r.byTag.find? tag).map (·.withFallback (r.copyWith overrides).fallback) := by
  rw [h.byTag_copyWith, Assoc.find?_map_values r.byTag (·.withFallback _)]

theorem typeForTag_copyWith (overrides : Options) (tag : String) :
    (r.copyWith overrides).typeForTag tag = r.typeForTag tag := by
  rw [typeForTag, typeForTag, h.find?_byTag_copyWith]
  cases r.byTag.find? tag with
  | none => rfl
  | some e => exact e.type_withFallback _

theorem replay_copyWith (overrides : Options) :
    ((new (r.inherit overrides)).replay r.byTag.values).run [] =
      (.ok (r.copyWith overrides), r.byTag.values.map (news (r.copyWith overrides).name)) := by
  rw [replay_run (h.admits_values _), copyWith_eq, name_foldl_adopt]
  rfl

end Consistent

end Replay

/-- Registries that have the same tags and types and answer every call alike. -/
structure Indistinct (r r' : Registry) : Prop where
  tags : r.tags = r'.tags
  types : r.typeForTag = r'.typeForTag
  answers : ∀ call, (r.perform call).answer = (r'.perform call).answer ∧
    (r.perform call).notices = (r'.perform call).notices

theorem Alike.indistinct {r r' : Registry} (h : r.Alike r') : r.Indistinct r' := by
  refine ⟨?_, ?_, fun call => ⟨(h.perform call).1, (h.perform call).2.1⟩⟩
  all_goals
    obtain ⟨memory, rfl⟩ := eq_of_forget_eq h.forget_eq
    rfl

namespace Request

theorem clone_run (r : Registry) (overrides : Options) :
    ((r.clone overrides).run []).1.toOption = some (r.copyWith overrides) := rfl

theorem apply_clone {registries : List Registry} {parent : Nat} {r : Registry}
    (held : registries[parent]? = some r) (overrides : Options) :
    apply registries (clone parent overrides) = registries ++ [r.copyWith overrides] := by
  rw [apply, held, Option.bind_some, clone_run]
  rfl

theorem sound_apply {registries : List Registry} (sound : ∀ r ∈ registries, r.Sound)
    (request : Request) : ∀ r ∈ apply registries request, r.Sound := by
  intro r mem
  cases request with
  | create options =>
    rcases List.mem_append.1 mem with old | new
    · exact sound r old
    · rw [List.mem_singleton.1 new]
      exact sound_new options
  | clone parent overrides =>
    rcases List.mem_append.1 mem with old | new
    · exact sound r old
    · rw [Option.mem_toList, Option.bind_eq_some_iff] at new
      obtain ⟨origin, held, copied⟩ := new
      rw [clone_run, Option.some.injEq] at copied
      rw [← copied]
      exact (sound origin (List.mem_of_getElem? held)).perform (.clone overrides)
  | call who call =>
    obtain ⟨i, found⟩ := List.mem_iff_getElem?.1 mem
    rw [apply, List.getElem?_modify] at found
    obtain ⟨old, held, rfl⟩ := Option.map_eq_some_iff.1 found
    have before := sound old (List.mem_of_getElem? held)
    split
    · exact before.perform call
    · exact before

theorem sound_foldl {registries : List Registry} (sound : ∀ r ∈ registries, r.Sound)
    (requests : List Request) : ∀ r ∈ requests.foldl apply registries, r.Sound := by
  induction requests generalizing registries with
  | nil => exact sound
  | cons request rest ih => exact ih (sound_apply sound request)

theorem sound_registriesAfter (requests : List Request) : ∀ r ∈ registriesAfter requests, r.Sound :=
  sound_foldl (by simp) requests

/-- A request leaves a registry alone, up to its memory, unless it asks the registry to bind. -/
theorem apply_alike {registries : List Registry} {i : Nat} {own alone : Registry}
    (held : registries[i]? = some own) (alike : own.Alike alone) (request : Request) :
    ∃ own', (apply registries request)[i]? = some own' ∧
      own'.Alike (alone.run (request.bindingOf? i).toList) := by
  have inside : i < registries.length := (List.getElem?_eq_some_iff.1 held).1
  cases request with
  | create options => exact ⟨own, by rw [apply, List.getElem?_append_left inside, held], alike⟩
  | clone parent overrides =>
    exact ⟨own, by rw [apply, List.getElem?_append_left inside, held], alike⟩
  | call who call =>
    rw [apply, List.getElem?_modify, held, bindingOf?, Option.map_eq_map, Option.map_some]
    by_cases asked : who = i
    · cases binds : call.rebinds with
      | true =>
        rw [if_pos asked, if_pos ⟨asked, rfl⟩]
        exact ⟨_, rfl, (alike.perform call).2.2⟩
      | false =>
        rw [if_pos asked, if_neg (fun both => Bool.false_ne_true both.2)]
        exact ⟨_, rfl, (alike.left.perform_alike binds).trans alike⟩
    · rw [if_neg asked, if_neg (fun both => asked both.1)]
      exact ⟨own, rfl, alike⟩

theorem foldl_alike {registries : List Registry} {i : Nat} {own alone : Registry}
    (held : registries[i]? = some own) (alike : own.Alike alone) (requests : List Request) :
    ∃ own', (requests.foldl apply registries)[i]? = some own' ∧
      own'.Alike (alone.run (bindingsOf i requests)) := by
  induction requests generalizing registries own alone with
  | nil => exact ⟨own, held, alike⟩
  | cons request rest ih =>
    obtain ⟨own₁, held₁, alike₁⟩ := apply_alike held alike request
    obtain ⟨own₂, held₂, alike₂⟩ := ih held₁ alike₁
    refine ⟨own₂, held₂, ?_⟩
    have split : alone.run (bindingsOf i (request :: rest)) =
        (alone.run (request.bindingOf? i).toList).run (bindingsOf i rest) := by
      rw [bindingsOf, bindingsOf, List.filterMap_cons]
      cases request.bindingOf? i <;> rfl
    rwa [split]

end Request

open Request in
/-- Cloning a registry comes to the same as registering its entries one by one, in order, with a new
registry that has the settings of the clone: no tag is taken from another type. From then on each
registry is as if it alone had been asked for its bindings, whatever the others are asked for. -/
theorem clone_replays (before : List Request) {parent : Nat} {r : Registry}
    (held : (registriesAfter before)[parent]? = some r) (overrides : Options) :
    ∃ copy,
      registriesAfter (before ++ [.clone parent overrides]) = registriesAfter before ++ [copy] ∧
      copy.tags = r.tags ∧ copy.typeForTag = r.typeForTag ∧
      (∀ tag, copy.byTag.find? tag =
        (r.byTag.find? tag).map (·.withFallback (overrides.fallback.getD r.fallback))) ∧
      ((new (r.inherit overrides)).replay r.byTag.values).run [] =
        (.ok copy, r.byTag.values.map (news copy.name)) ∧
      ∀ (middle after : List Request) (i : Nat) (own : Registry),
        (registriesAfter (before ++ .clone parent overrides :: middle))[i]? = some own →
          ∃ own', (registriesAfter (before ++ .clone parent overrides :: (middle ++ after)))[i]? =
              some own' ∧ own'.Indistinct (own.run (bindingsOf i after)) := by
  have sound := sound_registriesAfter before r (List.mem_of_getElem? held)
  have fallback : (r.copyWith overrides).fallback = overrides.fallback.getD r.fallback :=
    (sameSettings_foldl_adopt _ _).fallback
  refine ⟨r.copyWith overrides, ?_, sound.consistent.tags_copyWith overrides,
    funext (sound.consistent.typeForTag_copyWith overrides), fun tag => ?_,
    sound.consistent.replay_copyWith overrides, fun middle after i own found => ?_⟩
  · rw [registriesAfter, List.foldl_append]
    exact apply_clone held overrides
  · rw [← fallback]
    exact sound.consistent.find?_byTag_copyWith overrides tag
  · have remembers := (sound_registriesAfter _ own (List.mem_of_getElem? found)).remembers
    obtain ⟨own', found', alike⟩ := foldl_alike found remembers.alike after
    refine ⟨own', ?_, alike.indistinct⟩
    rw [← found', registriesAfter, registriesAfter, ← List.foldl_append, List.append_assoc]
    rfl

namespace Sample

def mixed : List Request :=
  [.create {}, .call 0 (.register ⟨"Shape", some shape⟩ "Shape" plain),
    .call 0 (.registerPickled ⟨"Square", some square⟩ "Square")]

def inJson : Options := { fallback := some .json }

/-- A clone with a byte codec of its own, which does not notice that its parent gives a type another
tag. -/
theorem mixed_cloned :
    ∃ r copy copy', (Request.registriesAfter mixed)[0]? = some r ∧ r.tags = ["Shape", "Square"] ∧
      Request.registriesAfter (mixed ++ [.clone 0 inJson]) = [r, copy] ∧
      copy.tags = ["Shape", "Square"] ∧
      ((new (r.inherit inJson)).replay r.byTag.values).run [] =
        (.ok copy, r.byTag.values.map (news copy.name)) ∧
      (Request.registriesAfter (mixed ++ [.clone 0 inJson,
        .call 0 (.registerPickled ⟨"Square", some square⟩ "Box")]))[1]? = some copy' ∧
      copy'.Indistinct copy := by
  have held : (Request.registriesAfter mixed)[0]? = some _ := rfl
  obtain ⟨copy, made, tags, -, -, replayed, apart⟩ := clone_replays mixed held inJson
  have there : (Request.registriesAfter (mixed ++ [.clone 0 inJson]))[1]? = some copy := by
    rw [made]
    rfl
  obtain ⟨copy', there', same⟩ :=
    apart [] [.call 0 (.registerPickled ⟨"Square", some square⟩ "Box")] 1 copy there
  exact ⟨_, copy, copy', held, rfl, made, tags, replayed, there', same⟩

end Sample

end Marshal.Registry
