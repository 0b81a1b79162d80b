import Marshal.Proofs.MessagePack.Contents
import Marshal.Proofs.Registry.Lightweight

namespace Marshal.Registry

open Marshal.Effect

variable {options : Options} {g : Graph} {v : Value} {c : Content}

theorem entryFor_new (options : Options) (g : Graph) (v : Value) :
    (new options).entryFor g v = (new options).fallbackEntry := by
  rw [entryFor]
  cases g.classOf? v with
  | none => rfl
  | some own =>
    have none : own.lineage.findSome? ((new options).byClass.find? ·) = none :=
      List.findSome?_eq_none_iff.2 fun _ _ => rfl
    dsimp only
    rw [nearest, none]
    rfl

/-- The tree is the node of values of no registered type, its data bytes. -/
def IsFallback (t : Tree) (g : Graph) : Prop :=
  ∃ data, t = .packed fallbackTag data ∧ g.isBytes data = true

/-- A value is written as one node of bytes and is left as it was, and wherever and whenever the
node is read, it is read as a value of some kind. -/
def ReturnsWhole (r : Registry) (s : Scene) (v : Value) (Q : Value → Graph → Prop) : Prop :=
  ∃ data s', (serialize v).run s = (.ok (.packed fallbackTag data), s') ∧
    s'.registry.forget = r.forget ∧ s.graph.Extends s'.graph ∧ s'.graph.isBytes data = true ∧
    ∀ later : Scene, later.registry.forget = r.forget → s'.graph.Extends later.graph →
      s.stack ≤ later.stack →
        ∃ w last, (deserializeTree (.packed fallbackTag data)).run later = (.ok w, last) ∧
          Q w last.graph

theorem arrives_unregistered {via : ByteCodec} (bytes : options.fallback.getD .messagePack = via)
    {s : Scene} (stands : Stands (new options) s.stack s.stack 0 s) {message : ByteArray}
    {k : Graph} (encoded : (via.encode v).run s.graph = (.ok message, k))
    (ext : s.graph.Extends k) {Q : Value → Graph → Prop}
    (decoded : ∀ h, ∃ w last, (via.decode message).run h = (.ok w, last) ∧ h.Extends last ∧
      Q w last) :
    Arrives (new options) s.stack 0 s (serializeAt s.stack 0 v) fun t last =>
      IsFallback t last ∧ ReadAs (new options) last 0 (fun _ k w => Q w k) t := by
  have entry := entryFor_new options s.graph v
  have codec : ((new options).entryFor s.graph v).codec = Pickle.codec via none := by
    rw [entry, fallbackEntry, show (new options).fallback = via from bytes]
  have consistent := consistent_new options
  refine arrives_message stands codec encoded ext fun allowed data last isBytes found =>
    ⟨⟨data, by rw [entry]; rfl, isBytes⟩, ?_⟩
  -- the tag of the fallback cannot be bound, so reading comes to the entry that wrote
  refine readAs_packed consistent (consistent.uses_entryFor s.graph v) allowed isBytes
    fun h later => ?_
  obtain ⟨w, last', ran, grown, holds⟩ := decoded h
  refine ⟨w, last', ?_, grown, holds⟩
  rw [codec]
  exact Pickle.deserialize_untyped_run (later.bytes? found) ran

section Reached

variable (allowed : (new options).maxDepth.exceededBy 0 = false) {calls : List Call}
  (unbound : ∀ call ∈ calls, call.rebinds = false) {s : Scene}
  (reached : s.registry = (new options).run calls) (room : 0 < s.stack)

include allowed unbound reached room

theorem returnsWhole_of_message {via : ByteCodec} (bytes : options.fallback.getD .messagePack = via)
    {message : ByteArray} {k : Graph} (encoded : (via.encode v).run s.graph = (.ok message, k))
    (ext : s.graph.Extends k) {Q : Value → Graph → Prop}
    (decoded : ∀ h, ∃ w last, (via.decode message).run h = (.ok w, last) ∧ h.Extends last ∧
      Q w last) :
    (new options).ReturnsWhole s v Q := by
  have root : ∀ depth ≤ 0, (new options).Allows depth := fun depth le => Nat.le_zero.1 le ▸ allowed
  obtain ⟨t, s', written, kept, grown, ⟨data, rfl, isBytes⟩, reads⟩ :=
    exists_tree_of_arrives (P := IsFallback)
      (Q := fun result last => ∃ w, result = .ok w ∧ Q w last) (sound_new options) root unbound
      reached room fun stands => (arrives_unregistered bytes stands encoded ext decoded).imp
        fun _ _ sort => ⟨sort.1, fun stack within =>
          sort.2.readsBack (fun _ _ w holds => ⟨w, rfl, holds⟩) within⟩
  refine ⟨data, s', written, kept, grown, isBytes, fun later unchanged ext' room' => ?_⟩
  obtain ⟨_, last, read, w, rfl, holds⟩ := reads later unchanged ext' room'
  exact ⟨w, last, read, holds⟩

end Reached

section Messages

variable (bytes : options.fallback.getD .messagePack = .messagePack)
  (allowed : (new options).maxDepth.exceededBy 0 = false) {calls : List Call}
  (unbound : ∀ call ∈ calls, call.rebinds = false) {s : Scene}
  (reached : s.registry = (new options).run calls) (room : 0 < s.stack)

include bytes allowed unbound reached room

/-- In a registry without entries of its own, a value made of scalars, lists, plain objects, maps
and sets, nested and shared in any way, goes to the byte codec whole and comes back as a value that
holds the same. The message is not longer than lengths in messages can say, and its texts and
numbers are such that messages give them back. -/
theorem unregistered_roundTrips (held : c.HeldBy s.graph v) (sendable : c.Sendable)
    (fits : Fits s.graph v) :
    (new options).ReturnsWhole s v fun w last => c.HeldBy last w := by
  obtain ⟨message, k, encoded, ext, decoded⟩ := MessagePack.exists_content_message held sendable
  refine returnsWhole_of_message allowed unbound reached room bytes encoded ext fun h => ?_
  exact decoded (fits message k encoded) h

/-- A scalar comes back as messages give it back: the negative zero as zero, and a long text that
starts with a byte order mark without it. -/
theorem unregistered_scalar_returns (scalar : v.isPrimitive = true)
    (whole : ∀ units, v ≠ .brokenText units)
    (small : ∀ text, v = .string text → text.toUTF8.size < 0x100000000) :
    (new options).ReturnsWhole s v fun w _ => w = MessagePack.readScalar v := by
  obtain ⟨message, encoded, decoded⟩ :=
    MessagePack.exists_scalar_message s.graph scalar whole small
  exact returnsWhole_of_message allowed unbound reached room bytes encoded (.refl _)
    fun h => ⟨_, h, decoded h, .refl h, rfl⟩

end Messages

namespace Sample

def bundle : Graph :=
  ⟨#[.record [("k", .string "é")],
    .bare .array (.list [some (.object 0), some (.object 0)]),
    .record [("k", .undefined)],
    .bare .set (.set [.null, .object 2, .number Number.nan]),
    .bare .map (.map [(.object 0, .object 3), (.string "k", .bool true)]),
    .record [("7", .number (Number.ofInt (-300))), ("list", .object 1), ("map", .object 4)]]⟩

def bundlePart (v : Value) : Content := .record ["k"] [.scalar v]

def bundleContent : Content :=
  .record ["7", "list", "map"]
    [.scalar (.number (Number.ofInt (-300))),
      .list [bundlePart (.string "é"), bundlePart (.string "é")],
      .map [bundlePart (.string "é"), .scalar (.string "k")]
        [.set [.scalar .null, bundlePart .undefined, .scalar (.number Number.nan)],
          .scalar (.bool true)]]

theorem heldBy_bundle : bundleContent.HeldBy bundle (.object 5) := by
  have text : (bundlePart (.string "é")).HeldBy bundle (.object 0) :=
    ⟨by decide, _, rfl, rfl, _, _, rfl, ⟨rfl, rfl⟩, rfl⟩
  have missing : (bundlePart .undefined).HeldBy bundle (.object 2) :=
    ⟨by decide, _, rfl, rfl, _, _, rfl, ⟨rfl, rfl⟩, rfl⟩
  refine ⟨by decide, _, rfl, rfl, _, _, rfl, ⟨rfl, rfl⟩, _, _, rfl,
    ⟨_, rfl, _, _, rfl, text, _, _, rfl, text, rfl⟩, _, _, rfl,
    ⟨_, rfl, ⟨by decide, by decide⟩, ⟨_, _, rfl, text, _, _, rfl, ⟨rfl, rfl⟩, rfl⟩, ?_⟩, rfl⟩
  exact ⟨_, _, rfl, ⟨_, rfl, ⟨by decide +kernel, by decide +kernel⟩, _, _, rfl, ⟨rfl, rfl⟩,
    _, _, rfl, missing, _, _, rfl, ⟨rfl, rfl⟩, rfl⟩, _, _, rfl, ⟨rfl, rfl⟩, rfl⟩

theorem sendable_bundle : bundleContent.Sendable := by
  have plain : ∀ name ∈ ["k", "7", "list", "map"], Content.Plain name := by
    simp only [List.forall_mem_cons]
    exact ⟨⟨by decide, by decide, by decide⟩, ⟨by decide, by decide, by decide⟩,
      ⟨by decide, by decide, by decide⟩, ⟨by decide, by decide, by decide⟩, nofun⟩
  have text (s : String) (short : s.toUTF8.size ≤ MessagePack.Reader.shortText) :
      Datum.Exact (.string s) :=
    (Datum.exact_string_iff s).2 fun long => absurd short (Nat.not_le.2 long.1)
  have number (x : Number) (h : x.isNegativeZero = false ∧ (x.isNaN = true → x = Number.nan)) :
      Datum.Exact (.number x) := (Datum.exact_number_iff x).2 h
  have part (v : Value) (exact : Datum.Exact v) : (bundlePart v).Sendable :=
    ⟨List.forall_mem_singleton.2 (plain _ (by decide)), exact, trivial⟩
  have spelled := part (.string "é") (text _ (by decide))
  have missing := part .undefined ⟨nofun, rfl⟩
  exact ⟨fun name mem => plain name (List.mem_cons_of_mem _ mem), number _ (by decide +kernel),
    ⟨spelled, spelled, trivial⟩,
    ⟨⟨spelled, text _ (by decide), trivial⟩,
      ⟨⟨nofun, rfl⟩, missing, number _ (by decide +kernel), trivial⟩, ⟨nofun, rfl⟩, trivial⟩,
    trivial⟩

theorem fits_bundle : Fits bundle (.object 5) := by
  have small : ((MessagePack.encode .whole (.object 5)).run bundle).1.toOption.all
      (·.size < 2 ^ 32) = true := by
    decide +kernel
  intro message k ran
  rw [ran] at small
  exact of_decide_eq_true small

/-- The registry that wrote the object reads it back. -/
theorem bundle_returns :
    ∃ data s' w last,
      (serialize (.object 5)).run (begun (new {}) bundle) = (.ok (.packed fallbackTag data), s') ∧
        s'.graph.isBytes data = true ∧
        (deserializeTree (.packed fallbackTag data)).run (begun (new {}) s'.graph) = (.ok w, last) ∧
        bundleContent.HeldBy last.graph w := by
  have allowed : (new {}).maxDepth.exceededBy 0 = false := by decide
  have unbound : ∀ call ∈ ([] : List Call), call.rebinds = false :=
    fun _ mem => absurd mem List.not_mem_nil
  obtain ⟨data, s', written, -, -, isBytes, reads⟩ :=
    unregistered_roundTrips (s := begun (new {}) bundle) (by rfl) allowed unbound rfl (by decide)
      heldBy_bundle sendable_bundle fits_bundle
  obtain ⟨w, last, read, held⟩ := reads (begun (new {}) s'.graph) rfl (.refl _) le_rfl
  exact ⟨data, s', w, last, written, isBytes, read, held⟩

def letters : String := String.ofList (List.replicate 70 'a')

def markedLetters : String := String.ofList (Char.ofNat 0xfeff :: List.replicate 70 'a')

/-- The text comes back without its mark. -/
theorem marked_letters_cut :
    letters ≠ markedLetters ∧
      ∃ data s' last,
        (serialize (.string markedLetters)).run (begun (new {}) ⟨#[]⟩) =
            (.ok (.packed fallbackTag data), s') ∧
          (deserializeTree (.packed fallbackTag data)).run (begun (new {}) s'.graph) =
            (.ok (.string letters), last) ∧
          ¬ (Content.scalar (.string markedLetters)).HeldBy last.graph (.string letters) := by
  have other : letters ≠ markedLetters := by decide +kernel
  have cut : MessagePack.readScalar (.string markedLetters) = .string letters := by decide +kernel
  have allowed : (new {}).maxDepth.exceededBy 0 = false := by decide
  have unbound : ∀ call ∈ ([] : List Call), call.rebinds = false :=
    fun _ mem => absurd mem List.not_mem_nil
  obtain ⟨data, s', written, -, -, -, reads⟩ :=
    unregistered_scalar_returns (v := .string markedLetters) (s := begun (new {}) ⟨#[]⟩) (by rfl)
      allowed unbound rfl (by decide) rfl nofun fun _ same => by cases same; decide +kernel
  obtain ⟨w, last, read, rfl⟩ := reads (begun (new {}) s'.graph) rfl (.refl _) le_rfl
  rw [cut] at read
  exact ⟨other, data, s', last, written, read, fun held => other (Value.string.inj held.1)⟩

end Sample

end Marshal.Registry
