import Marshal.Proofs.Registry.Lightweight
import Marshal.Proofs.Registry.Overlay

namespace Marshal.Registry

open Marshal.Effect

section HandlerSets

variable {r : Registry} {meaning : Meaning} {overrides : Options}

theorem registerDefaults_eq_replay (r : Registry) :
    r.registerDefaults = r.replay (Defaults.handlers.map builtIn) := by
  rw [registerDefaults, replay, List.foldlM_map]
  rfl

theorem layer_builtIn (known : ∀ h ∈ Defaults.handlers, h.2.2.Means meaning) (bytes : ByteCodec) :
    Layer meaning bytes (Defaults.handlers.map builtIn) where
  owned := List.forall_mem_map.2 fun _ _ => rfl
  unreserved := List.forall_mem_map.2 (addable_handlers {}).unreserved
  genuine := List.forall_mem_map.2 fun h mem => ⟨rfl, known h mem⟩
  classes := by
    rw [List.map_map]
    exact (by decide : (Defaults.handlers.map fun h => some h.1).Nodup)
  tags := by
    rw [List.map_map]
    exact (addable_handlers {}).tags

/-- The entry that a class gets under a tag if its values go to the byte codec whole. -/
def wholeEntry (bytes : ByteCodec) (p : Class × String) : Entry :=
  ⟨some (.ofClass p.1), p.2, Pickle.codec bytes (some (.ofClass p.1)), true⟩

theorem layer_wholeEntry (meaning : Meaning) (bytes : ByteCodec) :
    Layer meaning bytes (pickledTypes.map (wholeEntry bytes)) where
  owned := List.forall_mem_map.2 fun _ _ => rfl
  unreserved := List.forall_mem_map.2
    (by decide : ∀ p ∈ pickledTypes, p.2 ≠ fallbackTag)
  genuine := List.forall_mem_map.2 fun p _ => ⟨rfl, Pickle.means_codec meaning bytes _⟩
  classes := by
    rw [List.map_map]
    exact (by decide : (pickledTypes.map fun p => some p.1).Nodup)
  tags := by
    rw [List.map_map]
    exact (by decide : (pickledTypes.map fun p => p.2).Nodup)

def lightStart (r : Registry) (overrides : Options) : Registry :=
  r.copyWith { overrides with name := some (overrides.name.getD "lightweight") }

theorem lightweight_run_eq (r : Registry) (overrides : Options) :
    (r.lightweight overrides).run [] =
      ((r.lightStart overrides).replay
        (pickledTypes.map (wholeEntry (r.lightStart overrides).fallback))).run
          [.entry ⟨(r.lightStart overrides).name, .cloned r.name⟩] := by
  rw [lightweight, run_bind]
  change (((r.lightStart overrides).registerPickled (.ofClass .table) "Table" >>= fun r =>
    r.registerPickled (.ofClass .column) "Column" >>= fun r =>
      r.registerPickled (.ofClass .typedArray) "ndarray").run _) = _
  simp only [replay, pickledTypes, List.map_cons, List.map_nil, List.foldlM_cons, List.foldlM_nil,
    bind_pure]
  rfl

theorem settings_lightStart (r : Registry) (overrides : Options) :
    (r.lightStart overrides).fallback = overrides.fallback.getD r.fallback ∧
      (r.lightStart overrides).duplicateTags = overrides.duplicateTags.getD r.duplicateTags := by
  obtain ⟨fallback, duplicateTags, -⟩ := sameSettings_foldl_adopt
    (new (r.inherit { overrides with name := some (overrides.name.getD "lightweight") }))
    r.byTag.values
  exact ⟨fallback, duplicateTags⟩

theorem Consistent.find?_lightStart (h : r.Consistent) (faithful : r.UsesOwnCodec)
    (inherited : overrides.fallback = none) :
    (∀ tag, r.byTag.find? tag = (r.lightStart overrides).byTag.find? tag) ∧
      ∀ c, r.byClass.find? c = (r.lightStart overrides).byClass.find? c := by
  have fallback := (r.settings_lightStart overrides).1
  rw [inherited] at fallback
  have byTag : r.byTag = (r.lightStart overrides).byTag := by
    rw [lightStart, h.byTag_copyWith, ← lightStart, fallback]
    refine (List.map_id r.byTag).symm.trans (List.map_congr_left ?_)
    rintro ⟨tag, e⟩ mem
    exact congrArg (Prod.mk tag) (faithful tag e (h.mem_byTag_iff.1 mem)).symm
  exact h.find?_eq_of_perm (h.copyWith _) (byTag ▸ .refl _)

/-- What is done among registries for a lightweight copy of registry `i`, the `n`-th one. -/
def lightweightRequests (i n : Nat) (overrides : Options) : List Request :=
  .clone i { overrides with name := some (overrides.name.getD "lightweight") } ::
    pickledTypes.map fun p => .call n (.registerPickled (.ofClass p.1) p.2)

theorem foldl_apply_call (registries : List Registry) (own : Registry) (calls : List Call) :
    (calls.map (Request.call registries.length)).foldl Request.apply (registries ++ [own]) =
      registries ++ [own.run calls] := by
  induction calls generalizing own with
  | nil => rfl
  | cons call rest ih =>
    have first : Request.apply (registries ++ [own]) (.call registries.length call) =
        registries ++ [(own.perform call).registry] := by
      rw [Request.apply, List.modify_eq_take_drop, List.take_left, List.drop_left]
      rfl
    rw [List.map_cons, List.foldl_cons, first]
    exact ih _

theorem putIn_eq_ok {own : Registry} {e : Entry} (h : r.putIn e = .ok own) : own = r.overlay e := by
  unfold putIn at h
  split at h
  next => cases h
  next => exact (Except.ok.inj h).symm

theorem run_registerPickled {own : Registry} {types : List (Class × String)} {bytes : ByteCodec}
    (fallback : r.fallback = bytes) (layer : Layer meaning bytes (types.map (wholeEntry bytes)))
    (done : (types.map (wholeEntry bytes)).foldlM putIn r = .ok own) :
    r.run (types.map fun p => .registerPickled (.ofClass p.1) p.2) = own := by
  induction types generalizing r with
  | nil => exact Except.ok.inj done
  | cons p rest ih =>
    rw [List.map_cons] at layer done
    rw [List.foldlM_cons] at done
    obtain ⟨middle, admitted, more⟩ := bind_eq_ok_iff.1 done
    have own : (wholeEntry bytes p).withFallback r.fallback = wholeEntry bytes p := by
      rw [fallback]
      rfl
    obtain ⟨after, ran⟩ := exists_registerAgain_run (layer.owned _ List.mem_cons_self)
      (layer.unreserved _ List.mem_cons_self) own []
    have first : (r.perform (.registerPickled (.ofClass p.1) p.2)).registry = middle := by
      change (r.binding (r.registerAgain (wholeEntry bytes p))).registry = middle
      rw [binding, ran, admitted]
    rw [List.map_cons, Registry.run, List.foldl_cons, first]
    refine ih ?_ layer.tail more
    rw [putIn_eq_ok admitted, (sameSettings_overlay r _).fallback, fallback]

theorem foldl_lightweightRequests {registries : List Registry} {i : Nat}
    (held : registries[i]? = some r) (overrides : Options) :
    (∀ k, ∃ more, ((lightweightRequests i registries.length overrides).take k).foldl Request.apply
        registries = registries ++ more) ∧
      ∀ light after, (r.lightweight overrides).run [] = (.ok light, after) →
        (lightweightRequests i registries.length overrides).foldl Request.apply registries =
          registries ++ [light] := by
  have start := Request.apply_clone held
    { overrides with name := some (overrides.name.getD "lightweight") }
  rw [← lightStart] at start
  constructor
  · rintro (_ | k)
    · exact ⟨[], (List.append_nil registries).symm⟩
    · rw [lightweightRequests, List.take_succ_cons, List.foldl_cons, start, ← List.map_take]
      have asked := foldl_apply_call registries (r.lightStart overrides)
        ((pickledTypes.take k).map fun p => .registerPickled (.ofClass p.1) p.2)
      rw [List.map_map] at asked
      exact ⟨_, asked⟩
  · intro light after ran
    rw [lightweight_run_eq] at ran
    obtain ⟨after', ran'⟩ := exists_replay_run (layer_wholeEntry (fun _ => pure) _) _
    have done := congrArg Prod.fst (ran'.symm.trans ran)
    rw [lightweightRequests, List.foldl_cons, start,
      ← run_registerPickled rfl (layer_wholeEntry (fun _ => pure) _) done]
    have asked := foldl_apply_call registries (r.lightStart overrides)
      (pickledTypes.map fun p => .registerPickled (.ofClass p.1) p.2)
    rwa [List.map_map] at asked

/-- Handlers that are put in together are all there in the end, whatever was there before. -/
theorem handlers_prevail (options : Options) {calls : List Call} {meaning : Meaning}
    (means : ∀ call ∈ calls, call.Means meaning)
    (known : ∀ h ∈ Defaults.handlers, h.2.2.Means meaning) {r : Registry}
    (reached : (new options).run calls = r) :
    Prevails r r.duplicateTags (Defaults.handlers.map builtIn) (r.registerDefaults.run []).1 ∧
      ∀ overrides : Options, overrides.fallback = none →
        Prevails r (overrides.duplicateTags.getD r.duplicateTags)
            (pickledTypes.map (wholeEntry r.fallback)) ((r.lightweight overrides).run []).1 ∧
          ∀ (registries : List Registry) i, registries[i]? = some r →
            (∀ k, ∃ more,
              ((lightweightRequests i registries.length overrides).take k).foldl Request.apply
                registries = registries ++ more) ∧
              ∀ light after, (r.lightweight overrides).run [] = (.ok light, after) →
                (lightweightRequests i registries.length overrides).foldl Request.apply registries =
                  registries ++ [light] := by
  have sound : r.Sound := reached ▸ (sound_new options).run calls
  have bound : Bound (Genuine meaning) r := reached ▸ bound_genuine_run options means
  have faithful : r.UsesOwnCodec := fun tag e held => (bound tag e held).1
  refine ⟨?_, fun overrides inherited => ⟨?_, fun registries i held =>
    foldl_lightweightRequests held overrides⟩⟩
  · have layer := layer_builtIn known r.fallback
    obtain ⟨after, ran⟩ := exists_replay_run layer []
    rw [registerDefaults_eq_replay, ran]
    exact sound.consistent.prevails bound layer
  · obtain ⟨fallback, duplicateTags⟩ := r.settings_lightStart overrides
    rw [inherited] at fallback
    obtain ⟨byTag, byClass⟩ := sound.consistent.find?_lightStart faithful inherited
    have copied : Bound (Genuine meaning) (r.lightStart overrides) := by
      intro tag e held
      rw [fallback]
      exact bound tag e ((byTag tag).trans held)
    have layer := layer_wholeEntry meaning (r.lightStart overrides).fallback
    obtain ⟨after, ran⟩ := exists_replay_run layer
      [.entry ⟨(r.lightStart overrides).name, .cloned r.name⟩]
    have prevails := (sound.consistent.copyWith _).prevails copied layer
    rw [← lightStart, duplicateTags, fallback] at prevails
    rw [lightweight_run_eq, ran, fallback]
    exact prevails.of_find?_eq byTag byClass

end HandlerSets

namespace Sample

/-- Maps and sets under each other's tags, tables under the tag of number arrays, and a shape. -/
def crossed : List Call :=
  [.registerPickled (.ofClass .map) "Set", .registerPickled (.ofClass .set) "Map",
    .registerPickled (.ofClass .table) "ndarray", .registerPickled ⟨"Shape", some shape⟩ "Shape"]

def builtInMeaning : Meaning := fun k =>
  if k = "Marshal.Column.write" then Defaults.writeColumn
  else if k = "Marshal.Column.read" then Table.columnOfStructure
  else if k = "Marshal.Table.write" then Defaults.writeTable
  else Table.ofStructure

theorem means_handlers : ∀ h ∈ Defaults.handlers, h.2.2.Means builtInMeaning := by
  have fresh : ∀ write read, (Defaults.fresh write read).Means builtInMeaning :=
    fun _ _ => ⟨nofun, nofun⟩
  have column : Defaults.columnCodec.Means builtInMeaning := by
    constructor <;> rintro _ ⟨⟩ <;> simp [Defaults.columnCodec, builtInMeaning]
  have table : Defaults.tableCodec.Means builtInMeaning := by
    constructor <;> rintro _ ⟨⟩ <;> simp [Defaults.tableCodec, builtInMeaning]
  simp only [Defaults.handlers, List.forall_mem_cons, fresh, column, table, List.not_mem_nil,
    false_implies, implies_true, and_self]

theorem means_crossed : ∀ call ∈ crossed, call.Means builtInMeaning := by
  simp only [crossed, List.forall_mem_cons, Call.Means, List.not_mem_nil, false_implies,
    implies_true, and_self]

/-- The built-in handlers get their tags back, and so do those of a lightweight copy; the shape
stays. Where that is an error, it is said which tag was whose. -/
theorem handlers_over_crossed :
    (∃ final e, (((new {}).run crossed).registerDefaults.run []).1 = .ok final ∧
        final.byTag.find? "Map" = some e ∧ e.prototype? = some .map ∧ e.pickled = false ∧
        final.typeForTag "Shape" = some ⟨"Shape", some shape⟩) ∧
      (∃ light e, ((((new {}).run crossed).lightweight {}).run []).1 = .ok light ∧
        light.byTag.find? "ndarray" = some e ∧ e.prototype? = some .typedArray ∧
        e.pickled = true ∧ light.typeForTag "Set" = some (.ofClass .map)) ∧
      (((new { duplicateTags := some .error }).run crossed).registerDefaults.run []).1 =
        .error (.registry (.duplicateTag "Map" "Set" "Map")) := by
  obtain ⟨defaults, copies⟩ := handlers_prevail {} means_crossed means_handlers rfl
  obtain ⟨lightweight, -⟩ := copies {} rfl
  refine ⟨?_, ?_, rfl⟩
  · obtain ⟨final, same⟩ := defaults.returns (by decide)
    have overlaid := defaults.overlaid final same
    obtain ⟨c, e, own, -, held, alike⟩ :=
      overlaid.put _ (List.mem_map_of_mem (List.mem_of_getElem? (i := 1) rfl))
    obtain shape' := (overlaid.byTag "Shape" (by decide) _).2 ⟨rfl, by decide⟩
    refine ⟨final, e, same, held, alike.prototype, alike.pickled, ?_⟩
    rw [typeForTag, shape']
    rfl
  · obtain ⟨light, same⟩ := lightweight.returns (by decide)
    have overlaid := lightweight.overlaid light same
    obtain ⟨c, e, own, -, held, alike⟩ :=
      overlaid.put _ (List.mem_map_of_mem (List.mem_of_getElem? (i := 2) rfl))
    obtain set' := (overlaid.byTag "Set" (by decide) _).2 ⟨rfl, by decide⟩
    refine ⟨light, e, same, held, alike.prototype, alike.pickled, ?_⟩
    rw [typeForTag, set']
    rfl

end Sample

end Marshal.Registry
