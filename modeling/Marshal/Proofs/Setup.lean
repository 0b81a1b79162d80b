import Mathlib.Data.List.Induction
import Marshal.Proofs.Registry.Standard
import Marshal.Setup

namespace Marshal

open Marshal.Effect
open Marshal.Text (lower)

namespace Text

theorem lower_eq_empty_iff {s : String} : lower s = "" ↔ s = "" := by
  rw [lower, String.ofList_eq_empty_iff, ← String.toList_eq_nil_iff]
  cases s.toList with
  | nil => simp [lowerFrom]
  | cons c rest =>
    simp only [lowerFrom, List.append_eq_nil_iff, reduceCtorEq, iff_false]
    split_ifs <;> simp

end Text

namespace CodecRegistry

variable {known : CodecRegistry ByteCodec} {codecs : List ByteCodec} {asked : String}
  {c : ByteCodec}

/-- Every name leads to the last of these codecs that has it. -/
structure Holds (known : CodecRegistry ByteCodec) (codecs : List ByteCodec) : Prop where
  distinct : known.entries.keys.Nodup
  find? : ∀ name, known.entries.find? name = codecs.reverse.find? (·.name == name)

theorem Holds.registerCodec (h : known.Holds codecs) (c : ByteCodec) :
    (registerCodec known c).Holds (codecs ++ [c]) := by
  refine ⟨Assoc.nodup_keys_set h.distinct _ _, fun name => ?_⟩
  rw [Marshal.registerCodec, register, Assoc.find?_set, h.find?, List.reverse_append,
    List.reverse_singleton, List.singleton_append, List.find?_cons]
  by_cases same : name = c.name
  · rw [if_pos same, beq_iff_eq.2 same.symm]
  · rw [if_neg same, beq_eq_false_iff_ne.2 (Ne.symm same)]

theorem Holds.get?_eq (h : known.Holds codecs) (some : asked ≠ "") :
    known.get? asked = codecs.reverse.find? (·.name == lower asked) := by
  rw [get?, String.isEmpty_eq_false_iff.2 some, if_neg Bool.false_ne_true, h.find?]

/-- The codecs that are listed are those of which none of the same name came later. -/
theorem Holds.mem_toList_iff (h : known.Holds codecs) :
    c ∈ known.toList ↔ codecs.reverse.find? (·.name == c.name) = some c := by
  rw [← h.find?, Assoc.find?_eq_some_iff h.distinct, toList, Assoc.values, List.mem_map]
  constructor
  · rintro ⟨⟨name, _⟩, mem, rfl⟩
    have found := (Assoc.find?_eq_some_iff h.distinct).2 mem
    rw [h.find?] at found
    obtain rfl : _ = name := eq_of_beq (List.find?_some found :)
    exact mem
  · exact fun mem => ⟨_, mem, rfl⟩

end CodecRegistry

/-- What there is after these byte codecs were registered beside the built-in ones. -/
def registered (codecs : List ByteCodec) : CodecRegistry ByteCodec :=
  codecs.foldl registerCodec builtinCodecs

def latest? (codecs : List ByteCodec) (sort : ByteCodec → Bool) : Option ByteCodec :=
  (ByteCodec.json :: ByteCodec.messagePack :: codecs).reverse.find? sort

theorem holds_registered (codecs : List ByteCodec) :
    (registered codecs).Holds (.json :: .messagePack :: codecs) := by
  induction codecs using List.reverseRecOn with
  | nil =>
    have bare : (⟨[]⟩ : CodecRegistry ByteCodec).Holds [] := ⟨.nil, fun _ => rfl⟩
    exact (bare.registerCodec .json).registerCodec .messagePack
  | append_singleton codecs c ih =>
    rw [registered, List.foldl_append]
    exact ih.registerCodec c

namespace Contexts

variable {settings : Settings} {around : Surroundings} {codec : ByteCodec}

/-- The contexts of these settings, if there are any, fall back to the codec. Only a profile can be
the reason why there are none. -/
structure FallsBackTo (settings : Settings) (around : Surroundings) (codec : ByteCodec) : Prop where
  fallback_eq : ∀ notices contexts after,
    (build settings around).run notices = (.ok contexts, after) → contexts.base.fallback = codec
  exists_run : settings.profilesPath = none →
    ∀ notices, ∃ contexts after, (build settings around).run notices = (.ok contexts, after)

theorem lift_run {α : Type} {step : Reporting α} {notices after : List Notice} {a : α}
    (ran : step.run notices = (.ok a, after)) : (lift step).run notices = (.ok a, after) := by
  change lift step notices = _
  rw [lift]
  change step notices = _ at ran
  rw [ran]

/-- The log of contexts that have just been set up: there is one if the settings name a file and the
caller does not take the entries. -/
def newLog (settings : Settings) (around : Surroundings) : Option LineLog :=
  (settings.logPath.filter fun _ => !around.hasSink).map fun path =>
    (LineLog.start path around.opening).1

theorem exists_openLog_run (settings : Settings) (around : Surroundings) (notices : List Notice) :
    ∃ after, (openLog settings around).run notices = (.ok (newLog settings around), after) := by
  rw [openLog, newLog]
  cases settings.logPath.filter fun _ => !around.hasSink with
  | none => exact ⟨_, rfl⟩
  | some path => exact ⟨_, rfl⟩

theorem exists_build_run_eq (found : around.codecs.get? settings.fallback = some codec)
    (notices : List Notice) : ∃ after, (build settings around).run notices =
      (family settings around (Registry.builtInOnly (options settings codec)) >>= fun profiles =>
        pure ⟨Registry.builtInOnly (options settings codec), profiles,
          newLog settings around⟩).run after := by
  obtain ⟨logged, opened⟩ := exists_openLog_run settings around notices
  obtain ⟨after, made⟩ := Registry.standard_run (options settings codec) logged
  refine ⟨after, ?_⟩
  rw [build, found]
  dsimp only
  rw [run_bind, opened]
  dsimp only
  rw [run_bind, lift_run made]

theorem fallsBackTo_of_get? (found : around.codecs.get? settings.fallback = some codec) :
    FallsBackTo settings around codec := by
  constructor
  · intro notices contexts after ran
    obtain ⟨middle, same⟩ := exists_build_run_eq found notices
    rw [same] at ran
    obtain ⟨profiles, last, -, made⟩ := run_bind_eq_ok.1 ran
    cases made
    rfl
  · intro bare notices
    obtain ⟨middle, same⟩ := exists_build_run_eq found notices
    rw [same, family, bare]
    exact ⟨_, _, rfl⟩

theorem build_unknown_run (unknown : around.codecs.get? settings.fallback = none)
    (notices : List Notice) :
    (build settings around).run notices =
      (.error (.fault (unknownFallback around.codecs settings.fallback)), notices) := by
  rw [build, unknown]
  rfl

theorem log_of_build {notices after : List Notice} {contexts : Contexts}
    (ran : (build settings around).run notices = (.ok contexts, after)) :
    contexts.log = newLog settings around := by
  cases found : around.codecs.get? settings.fallback with
  | none =>
    rw [build_unknown_run found] at ran
    cases ran
  | some codec =>
    obtain ⟨middle, same⟩ := exists_build_run_eq found notices
    rw [same] at ran
    obtain ⟨profiles, last, -, made⟩ := run_bind_eq_ok.1 ran
    cases made
    rfl

end Contexts

section Found

variable {codecs : List ByteCodec} {c : ByteCodec} {asked : String}

theorem get?_registered (codecs : List ByteCodec) (some : asked ≠ "") :
    (registered codecs).get? asked = latest? codecs (·.name == lower asked) :=
  (holds_registered codecs).get?_eq some

/-- The last codec of a name in any case is found exactly if its own name is in small letters. -/
theorem latest?_small_iff {last : ByteCodec} {name : String}
    (alike : latest? codecs (lower ·.name == lower name) = some last) :
    latest? codecs (·.name == lower name) = some last ↔ lower last.name = last.name := by
  have same : lower last.name = lower name := eq_of_beq (List.find?_some alike :)
  constructor
  · intro found
    exact same.trans (eq_of_beq (List.find?_some found :)).symm
  · intro small
    obtain ⟨-, before, after, split, others⟩ := List.find?_eq_some_iff_append.1 alike
    refine List.find?_eq_some_iff_append.2
      ⟨beq_iff_eq.2 (small.symm.trans same), before, after, split, fun other mem => ?_⟩
    -- whatever has the small name is alike, so it came earlier
    have apart := others other mem
    rw [Bool.not_eq_true', beq_eq_false_iff_ne] at apart ⊢
    intro equal
    refine apart ?_
    rw [equal, ← same, small, small]

/-- By its name in any case, a codec that is listed leads to the codec that was registered last
under that name, whatever the case, if that one has its name in small letters, and only then.
Contexts can then be set up to fall back to it. -/
theorem listed_codec_found (listed : c ∈ (registered codecs).toList) (named : c.name ≠ "")
    (spelled : lower asked = lower c.name) :
    (registered codecs).get? asked = latest? codecs (·.name == lower c.name) ∧
      ∃ last, latest? codecs (lower ·.name == lower c.name) = some last ∧
        ((registered codecs).get? asked = some last ↔ lower last.name = last.name) ∧
        (lower last.name = last.name → ∀ settings around, around.codecs = registered codecs →
          settings.fallback = asked → Contexts.FallsBackTo settings around last) := by
  have some : asked ≠ "" := by
    rintro rfl
    exact named (Text.lower_eq_empty_iff.1 (spelled ▸ Text.lower_eq_empty_iff.2 rfl))
  have found := get?_registered codecs some
  rw [spelled] at found
  obtain ⟨last, alike⟩ : ∃ last, latest? codecs (lower ·.name == lower c.name) = .some last := by
    rw [← Option.isSome_iff_exists, latest?, List.find?_isSome]
    have own := (holds_registered codecs).mem_toList_iff.1 listed
    exact ⟨c, List.mem_of_find?_eq_some own, beq_self_eq_true _⟩
  refine ⟨found, last, alike, found ▸ latest?_small_iff alike, ?_⟩
  intro small settings around known given
  refine Contexts.fallsBackTo_of_get? ?_
  rw [known, given, found]
  exact (latest?_small_iff alike).2 small

end Found

namespace Sample

def named (name : String) : ByteCodec := { ByteCodec.json with name }

def fallingBackTo (name : String) : Settings :=
  { fallback := name, maxDepth := Registry.defaultMaxDepth, duplicateTags := .warn, logPath := none,
    profilesPath := none }

/-- A name in small letters is found by a name in capitals. -/
theorem small_letters_found :
    (registered [named "cbor"]).get? "CBOR" = some (named "cbor") ∧
      Contexts.FallsBackTo (fallingBackTo "CBOR") { codecs := registered [named "cbor"] }
        (named "cbor") := by
  have listed : named "cbor" ∈ (registered [named "cbor"]).toList := .tail _ (.tail _ (.head _))
  have spelled : lower "CBOR" = lower (named "cbor").name := by decide
  obtain ⟨-, last, alike, found, falls⟩ := listed_codec_found listed (by decide) spelled
  obtain rfl : named "cbor" = last := Option.some.inj alike
  have small : lower (named "cbor").name = (named "cbor").name := by decide
  exact ⟨found.2 small, falls small _ _ rfl rfl⟩

/-- A name in capitals is listed, and no name leads to it. -/
theorem capitals_not_found :
    named "CBOR" ∈ (registered [named "CBOR"]).toList ∧
      latest? [named "CBOR"] (lower ·.name == lower "CBOR") = some (named "CBOR") ∧
      (registered [named "CBOR"]).get? "CBOR" = none ∧
      (Contexts.build (fallingBackTo "CBOR") { codecs := registered [named "CBOR"] }).run [] =
        (.error (.fault (.error
          "Unknown fallback codec \"CBOR\" (available: json, msgpack, CBOR)")), []) := by
  refine ⟨.tail _ (.tail _ (.head _)), rfl, rfl, ?_⟩
  rw [Contexts.build_unknown_run rfl]
  rfl

end Sample

end Marshal
