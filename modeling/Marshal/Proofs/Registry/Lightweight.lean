import Marshal.Proofs.MessagePack.Whole
import Marshal.Proofs.Registry.Carried
import Marshal.Proofs.Registry.Pickled

namespace Marshal

open Marshal.Effect

namespace Pickle

open Marshal.MessagePack (readBytes)

variable {bytes : ByteCodec} {c : Class} {g k : Graph} {v data w : Value} {message : ByteArray}

theorem serialize_run {type : Option TypeRef} (ran : (bytes.encode v).run g = (.ok message, k)) :
    ((codec bytes type).serialize.run v).run g =
      (.ok (.object k.size), k.add (readBytes message)) := by
  change (bytes.encode v >>= Action.newBytes).run g = _
  rw [run_bind, ran]
  rfl

theorem bytesOf_run (found : g.bytes? data = some message) (name : String) :
    (bytesOf name data).run g = (.ok message, g) := by
  rw [bytesOf, run_bind, run_get]
  dsimp only
  rw [found]
  rfl

theorem deserialize_untyped_run (found : g.bytes? data = some message)
    (ran : (bytes.decode message).run g = (.ok w, k)) :
    ((codec bytes none).deserialize.run data).run g = (.ok w, k) := by
  change (bytesOf bytes.name data >>= fun message => bytes.decode message >>= pure).run g = _
  rw [run_bind, bytesOf_run found]
  dsimp only
  rw [run_bind, ran]
  rfl

theorem deserialize_run (found : g.bytes? data = some message) :
    ((codec bytes (some (.ofClass c))).deserialize.run data).run g =
      (bytes.decode message >>= restore c).run g := by
  change (bytesOf bytes.name data >>= fun message => bytes.decode message >>= restore c).run g = _
  rw [run_bind, bytesOf_run found]

theorem deserialize_run_ok (found : g.bytes? data = some message)
    (ran : (bytes.decode message).run g = (.ok w, k)) {o : Object} (object : k.objectOf? w = some o)
    (within : o.kind.any (·.isWithin c) = true) :
    ((codec bytes (some (.ofClass c))).deserialize.run data).run g = (.ok w, k) := by
  rw [deserialize_run found, run_bind, ran]
  dsimp only
  rw [restore, run_bind, Action.objectOf?_run, object]
  dsimp only
  rw [within, Bool.or_true, if_pos rfl]
  rfl

theorem deserialize_run_error {fault : Fault} (found : g.bytes? data = some message)
    (ran : (bytes.decode message).run g = (.error fault, k)) :
    ((codec bytes (some (.ofClass c))).deserialize.run data).run g = (.error fault, k) := by
  rw [deserialize_run found, run_bind, ran]

end Pickle

namespace Registry

/-- Reading the tree comes out so, whatever was added since and was read before. -/
def ReadsBack (r : Registry) (g : Graph) (stack : Nat) (t : Tree)
    (Q : Except Fault Value → Graph → Prop) : Prop :=
  ∀ later : Scene, later.registry.forget = r.forget → g.Extends later.graph →
    stack ≤ later.stack →
      ∃ result last, (deserializeTree t).run later = (result, last) ∧ Q result last.graph

/-- A value is written, whatever was met before, and reading it comes out so. The stack goes beyond
the given number of levels. -/
def Replies (r : Registry) (levels : Nat) (g : Graph) (v : Value)
    (Q : Except Fault Value → Graph → Prop) : Prop :=
  ∀ calls : List Call, (∀ call ∈ calls, call.rebinds = false) →
    ∀ s : Scene, s.registry = r.run calls → s.graph = g → levels < s.stack →
      ∃ t s', (serialize v).run s = (.ok t, s') ∧ r.ReadsBack s'.graph s.stack t Q

/-- A value that holds the datum comes back as a value that holds it. -/
def RoundTrips (r : Registry) (levels : Nat) (g : Graph) (v : Value) (d : Datum) : Prop :=
  r.Replies levels g v fun result last => ∃ w, result = .ok w ∧ d.HeldBy false last w

theorem exists_tree_of_arrives {r : Registry} (sound : r.Sound) {v : Value}
    {P : Tree → Graph → Prop} {Q : Except Fault Value → Graph → Prop} {lowest : Nat}
    (shallow : ∀ depth ≤ lowest, r.Allows depth) {calls : List Call}
    (unbound : ∀ call ∈ calls, call.rebinds = false) {s : Scene}
    (reached : s.registry = r.run calls) (room : lowest < s.stack)
    (arrives : Stands r s.stack s.stack 0 s →
      Arrives r s.stack lowest s (serializeAt s.stack 0 v) fun t last =>
        P t last ∧ ∀ stack, t.Within stack → r.ReadsBack last stack t Q) :
    ∃ t s', (serialize v).run s = (.ok t, s') ∧ s'.registry.forget = r.forget ∧
      s.graph.Extends s'.graph ∧ P t s'.graph ∧ r.ReadsBack s'.graph s.stack t Q := by
  have alike : s.registry.Alike r := reached ▸ sound.remembers.run_alike unbound
  have sound' : s.registry.Sound := reached ▸ sound.run calls
  cases arrives (stands_root alike) with
  | deep ran deep => exact absurd deep (not_tooDeep shallow room _)
  | @ok t s' ran alike' grown sort =>
    obtain ⟨-, -, -, within⟩ := writes_of_serialize sound'.remembers ran
    exact ⟨t, s', ran, alike'.forget_eq, grown, sort.1, sort.2 _ within⟩

theorem replies_of_arrives {r : Registry} (sound : r.Sound) {g : Graph} {v : Value}
    {Q : Except Fault Value → Graph → Prop} {lowest : Nat}
    (shallow : ∀ depth ≤ lowest, r.Allows depth)
    (arrives : ∀ s : Scene, Stands r s.stack s.stack 0 s → s.graph = g →
      Arrives r s.stack lowest s (serializeAt s.stack 0 v) fun t last =>
        ∀ stack, t.Within stack → r.ReadsBack last stack t Q) :
    r.Replies lowest g v Q := by
  intro calls unbound s reached same room
  obtain ⟨t, s', written, -, -, -, reads⟩ :=
    exists_tree_of_arrives (P := fun _ _ => True) sound shallow unbound reached room
      fun stands => (arrives s stands same).imp fun _ _ reads => ⟨trivial, reads⟩
  exact ⟨t, s', written, reads⟩

theorem ReadAs.readsBack {r : Registry} {g : Graph} {P : Nat → Graph → Value → Prop} {t : Tree}
    {Q : Except Fault Value → Graph → Prop} (h : ReadAs r g 0 P t)
    (le : ∀ since k w, P since k w → Q (.ok w) k) {stack : Nat} (within : t.Within stack) :
    r.ReadsBack g stack t Q := by
  intro later unchanged ext room
  obtain ⟨w, last, read, -, -, since, sort⟩ := h.deserializeTree unchanged ext (within.mono room)
  exact ⟨.ok w, last, read, le since _ w sort⟩

theorem roundTrips_of_arrives {r : Registry} (sound : r.Sound) {g : Graph} {v : Value} {d : Datum}
    {lowest : Nat} (shallow : ∀ depth ≤ lowest, r.Allows depth)
    (arrives : ∀ s : Scene, Stands r s.stack s.stack 0 s → s.graph = g →
      Arrives r s.stack lowest s (serializeAt s.stack 0 v) fun t last =>
        ReadAs r last 0 (fun _ k w => d.HeldBy false k w) t) :
    r.RoundTrips lowest g v d :=
  replies_of_arrives sound shallow fun s stands same => (arrives s stands same).imp
    fun _ _ reads _ within => reads.readsBack (fun _ _ w held => ⟨w, rfl, held⟩) within

/-- The message of the value, if it gets one, is not longer than lengths in messages can say. -/
def Fits (g : Graph) (v : Value) : Prop :=
  ∀ message k, (MessagePack.encode .whole v).run g = (.ok message, k) → message.size < 2 ^ 32

section Messages

variable {r : Registry} {stack fuel depth : Nat} {s : Scene} {v : Value} {c : Class}

theorem arrives_message (stands : Stands r stack fuel depth s) {via : ByteCodec}
    {type : Option TypeRef} (codec : (r.entryFor s.graph v).codec = Pickle.codec via type)
    {message : ByteArray} {k : Graph} (encoded : (via.encode v).run s.graph = (.ok message, k))
    (ext : s.graph.Extends k) {Q : Tree → Graph → Prop}
    (sort : r.Allows depth → ∀ data last, last.isBytes data = true →
      last.bytes? data = some message → Q (.packed (r.entryFor s.graph v).tag data) last) :
    Arrives r stack depth s (serializeAt fuel depth v) Q := by
  refine arrives_of_allows stands le_rfl fun fuel _ allowed => ?_
  have made := Graph.get?_add_size k (MessagePack.readBytes message)
  have wrote : ((r.entryFor s.graph v).codec.serialize.run v).run s.graph =
      (.ok (.object k.size), k.add (MessagePack.readBytes message)) := by
    rw [codec]
    exact Pickle.serialize_run encoded
  have bytes : (k.add (MessagePack.readBytes message)).isBytes (.object k.size) = true := by
    rw [Graph.isBytes, Graph.kindOf?_of_get? made]
    rfl
  have found : (k.add (MessagePack.readBytes message)).bytes? (.object k.size) = some message := by
    rw [Graph.bytes?, Graph.objectOf?_object, made]
    rfl
  obtain ⟨registry, alike, run⟩ :=
    serializeAt_bytes_run fuel stands.alike allowed wrote bytes
  exact .ok run alike (ext.trans (Graph.extends_add _ _)) (sort allowed _ _ bytes found)

theorem arrives_pickled (consistent : r.Consistent) (stands : Stands r stack fuel depth s)
    {d : Datum} (held : d.HeldBy true s.graph v) (sendable : d.Sendable) (fits : Fits s.graph v)
    {own : Class} (class_eq : d.class? = some own) (within : own.isWithin c = true)
    (codec : (r.entryFor s.graph v).codec = Pickle.codec .messagePack (some (.ofClass c))) :
    Arrives r stack depth s (serializeAt fuel depth v) fun t last =>
      ReadAs r last depth (fun _ k w => d.HeldBy false k w) t := by
  obtain ⟨message, k, encoded, ext, decoded⟩ := MessagePack.exists_message held sendable
  refine arrives_message stands codec encoded ext fun allowed data last bytes found => ?_
  refine readAs_packed consistent (consistent.uses_entryFor s.graph v) allowed bytes
    fun h later => ?_
  obtain ⟨w, last', ran, grown, held'⟩ := decoded (fits message k encoded) h
  obtain ⟨o, c', object, kind, below⟩ := held'.exists_class class_eq
  have instance' : o.kind.any (·.isWithin c) = true := by
    rw [kind]
    exact Class.isWithin_trans below within
  refine ⟨w, last', ?_, grown, held'⟩
  rw [codec]
  exact Pickle.deserialize_run_ok (later.bytes? found) ran object instance'

theorem replies_foreign (sound : r.Sound) (shallow : r.Allows 0) {g : Graph} {kind : DType}
    {data : ByteArray} (held : (Datum.numbers kind data).HeldBy false g v)
    (foreign : ¬ (Datum.numbers kind data).HeldBy true g v) (small : data.size + 1 < 2 ^ 32)
    (codec : (r.entryFor g v).codec = Pickle.codec .messagePack (some (.ofClass c))) :
    r.Replies 0 g v fun result _ => result =
      .error (.registry (.codecFailure (r.entryFor g v).tag (r.entryFor g v).typeName .deserialize
        (.error .error "Could not find typed array for code 255"))) := by
  refine replies_of_arrives sound (fun depth le => Nat.le_zero.1 le ▸ shallow)
    fun s stands same => ?_
  subst same
  obtain ⟨message, encoded, refused⟩ := MessagePack.exists_refused_message held foreign small
  refine arrives_message stands codec encoded (.refl _) fun allowed data last bytes found stack
    within later unchanged ext room => ?_
  have failed : ((r.entryFor s.graph v).codec.deserialize.run data).run later.graph =
      (.error (MessagePack.unknownStorage "255"), later.graph) := by
    rw [codec]
    exact Pickle.deserialize_run_error (ext.bytes? found) (refused later.graph)
  have read := deserializeTree_packed_run sound.consistent
    (sound.consistent.uses_entryFor s.graph v) allowed unchanged (ext.isBytes bytes)
    (within.mono room)
  exact ⟨_, _, read, rebuild_run_of_cause failed⟩

end Messages

section Copies

variable {base : Registry} {name : Option String}

theorem Sound.of_bind {r own : Registry} (h : r.Sound) {type : TypeRef} {tag : String}
    {codec : Codec} {pickled : Bool} {notices after : List Notice}
    (ran : (r.bind type tag codec pickled).run notices = (.ok own, after)) : own.Sound := by
  rcases r.bind_cases type tag codec pickled notices with
    ⟨fault, after', hr⟩ | ⟨after', hr⟩ | ⟨c, after', proto, free, hr⟩
  · cases hr.symm.trans ran
  · cases hr.symm.trans ran
    exact h
  · cases hr.symm.trans ran
    exact ⟨h.consistent.rebind proto free, remembers_of_blank rfl⟩

theorem SameSettings.allows {own : Registry} (same : base.SameSettings own) {depth : Nat}
    (allowed : base.Allows depth) : own.Allows depth := by
  rw [Allows, same.maxDepth]
  exact allowed

/-- The types of a registry that a lightweight copy of it has pickled. -/
def pickledTypes : List (Class × String) :=
  [(.table, "Table"), (.column, "Column"), (.typedArray, "ndarray")]

theorem lightweight_run (sound : base.Sound) (faithful : base.UsesOwnCodec)
    (types : ∀ p ∈ pickledTypes, base.typeForTag p.2 = some (.ofClass p.1)) (name : Option String) :
    ∃ light after, (base.lightweight { name }).run [] = (.ok light, after) ∧ light.Sound ∧
      Pickles base light (pickledTypes.map Prod.snd) := by
  have known : ∀ p ∈ pickledTypes, p.2 ∈ base.tags := by
    intro p mem
    rw [tags, Assoc.mem_keys_iff_isSome]
    have bound := types p mem
    rw [typeForTag] at bound
    obtain ⟨e, held, -⟩ := Option.bind_eq_some_iff.1 bound
    rw [held]
    rfl
  simp only [pickledTypes, List.forall_mem_cons] at types known
  obtain ⟨table, column, array, -⟩ := types
  obtain ⟨table', column', array', -⟩ := known
  have start := (sound.consistent.pickles_self).copyWith faithful (name.getD "lightweight")
  have copied : (base.copyWith { name := some (name.getD "lightweight") }).Sound :=
    ⟨start.consistent, remembers_of_blank (resolved_copyWith _ _)⟩
  have quiet : Quiet [.entry ⟨(base.copyWith { name := some (name.getD "lightweight") }).name,
      .cloned base.name⟩] := quiet_nil.report (by simp) (by simp)
  obtain ⟨type₁, r₁, after₁, same₁, ran₁, pickles₁, -, quiet₁⟩ :=
    start.registerPickled_run faithful table' quiet
  obtain ⟨type₂, r₂, after₂, same₂, ran₂, pickles₂, -, quiet₂⟩ :=
    pickles₁.registerPickled_run faithful column' quiet₁
  obtain ⟨type₃, r₃, after₃, same₃, ran₃, pickles₃, -, -⟩ :=
    pickles₂.registerPickled_run faithful array' quiet₂
  obtain rfl := Option.some.inj (table.symm.trans same₁)
  obtain rfl := Option.some.inj (column.symm.trans same₂)
  obtain rfl := Option.some.inj (array.symm.trans same₃)
  refine ⟨r₃, after₃, ?_, ((copied.of_bind ran₁).of_bind ran₂).of_bind ran₃, pickles₃⟩
  rw [lightweight]
  exact run_bind_eq_ok.2 ⟨_, _, rfl, run_bind_eq_ok.2 ⟨r₁, after₁, ran₁,
    run_bind_eq_ok.2 ⟨r₂, after₂, ran₂, ran₃⟩⟩⟩

end Copies

section Agreement

variable {options : Options} {g : Graph} {v : Value} {d : Datum}

theorem usesOwnCodec_builtInOnly (options : Options) : (builtInOnly options).UsesOwnCodec := by
  rw [builtInOnly, ← (addable_handlers _).run_registers rfl]
  exact (usesOwnCodec_new _).run (sound_new _) _

theorem builtInOnly_roundTrips (held : d.HeldBy false g v) (own : d.class?.isSome = true)
    (shallow : ∀ depth ≤ d.depth, (builtInOnly options).Allows depth) :
    (builtInOnly options).RoundTrips d.depth g v d := by
  refine roundTrips_of_arrives (sound_builtInOnly options) shallow fun s stands same => ?_
  have arrives := passes_builtInOnly d own stands (same ▸ held)
  rwa [Nat.zero_add] at arrives

theorem entryFor_lightweight {light : Registry}
    (pickles : Pickles (builtInOnly options) light (pickledTypes.map Prod.snd))
    {h : Class × String × Codec} (mem : h ∈ Defaults.handlers)
    (pickled : (h.1, h.2.1) ∈ pickledTypes) {c : Class} (own : d.class? = some c)
    (within : c.isWithin h.1 = true) (held : d.HeldBy false g v) :
    light.entryFor g v = (builtIn h).whole (builtInOnly options).fallback := by
  rw [pickles.entryFor (sound_builtInOnly options).consistent,
    entryFor_of_heldBy mem own within g v held]
  exact if_pos (List.mem_map_of_mem pickled)

theorem exists_pickledType (tabular : d.IsTabular) :
    ∃ h ∈ Defaults.handlers, (h.1, h.2.1) ∈ pickledTypes ∧
      ∃ c, d.class? = some c ∧ c.isWithin h.1 = true := by
  cases d with
  | numbers kind bytes =>
    refine ⟨_, List.mem_of_getElem? (i := 6) rfl, by decide, .numbers kind, rfl, ?_⟩
    cases kind <;> decide
  | column => exact ⟨_, List.mem_of_getElem? (i := 7) rfl, by decide, _, rfl, by decide⟩
  | table => exact ⟨_, List.mem_of_getElem? (i := 8) rfl, by decide, _, rfl, by decide⟩
  | _ => exact tabular.elim

theorem standard_lightweight_run {base : Registry} {notices : List Notice}
    (made : (standard options).run [] = (.ok base, notices)) (name : Option String) :
    base = builtInOnly options ∧
      ∃ light after, (base.lightweight { name }).run [] = (.ok light, after) ∧ light.Sound ∧
        Pickles (builtInOnly options) light (pickledTypes.map Prod.snd) := by
  obtain ⟨after, same⟩ := standard_run options []
  obtain rfl : builtInOnly options = base := by
    rw [same] at made
    cases made
    rfl
  have types : ∀ p ∈ pickledTypes, (builtInOnly options).typeForTag p.2 = some (.ofClass p.1) :=
    List.forall_mem_cons.2 ⟨rfl, List.forall_mem_cons.2 ⟨rfl, List.forall_mem_singleton.2 rfl⟩⟩
  exact ⟨rfl, lightweight_run (sound_builtInOnly options) (usesOwnCodec_builtInOnly options) types
    name⟩

/-- A number array, a column or a table comes back holding what it held, both from the tree that the
built-in handlers take it apart into and from the message that a lightweight copy of their registry
makes of it whole. It is not nested too deep, and for the message its number arrays are of classes
that messages know, its texts and numbers such that messages give them back. -/
theorem structural_agrees_with_pickled (bytes : options.fallback.getD .messagePack = .messagePack)
    {base : Registry} {notices : List Notice}
    (made : (standard options).run [] = (.ok base, notices)) (name : Option String)
    (held : d.HeldBy false g v) (tabular : d.IsTabular)
    (shallow : ∀ depth ≤ d.depth, base.Allows depth) :
    base.RoundTrips d.depth g v d ∧
      ∃ light after, (base.lightweight { name }).run [] = (.ok light, after) ∧
        (d.HeldBy true g v → d.Sendable → Fits g v → light.RoundTrips 0 g v d) := by
  obtain ⟨rfl, light, after, ran, sound, pickles⟩ := standard_lightweight_run made name
  obtain ⟨h, mem, pickled, c, own, within⟩ := exists_pickledType tabular
  refine ⟨builtInOnly_roundTrips held (by rw [own]; rfl) shallow, light, after, ran,
    fun known sendable fits => ?_⟩
  have codec := congrArg Entry.codec (entryFor_lightweight pickles mem pickled own within held)
  have fallback : (builtInOnly options).fallback = .messagePack := bytes
  rw [fallback] at codec
  have root : ∀ depth ≤ 0, light.Allows depth := fun depth le =>
    pickles.settings.allows (shallow depth (le.trans (Nat.zero_le _)))
  refine roundTrips_of_arrives sound root fun s stands same => ?_
  subst same
  exact arrives_pickled sound.consistent stands known sendable fits own within codec

theorem lightweight_refuses_foreign (bytes : options.fallback.getD .messagePack = .messagePack)
    {base : Registry} {notices : List Notice}
    (made : (standard options).run [] = (.ok base, notices)) (name : Option String)
    {kind : DType} {data : ByteArray}
    (held : (Datum.numbers kind data).HeldBy false g v)
    (foreign : ¬ (Datum.numbers kind data).HeldBy true g v) (small : data.size + 1 < 2 ^ 32)
    (shallow : base.Allows 0) :
    ∃ light after, (base.lightweight { name }).run [] = (.ok light, after) ∧
      light.Replies 0 g v fun result _ => result =
        .error (.registry (.codecFailure "ndarray" "TypedArray" .deserialize
          (.error .error "Could not find typed array for code 255"))) := by
  obtain ⟨rfl, light, after, ran, sound, pickles⟩ := standard_lightweight_run made name
  have chosen := entryFor_lightweight pickles (List.mem_of_getElem? (i := 6) rfl) (by decide) rfl
    (by cases kind <;> decide) held
  have fallback : (builtInOnly options).fallback = .messagePack := bytes
  have root : light.Allows 0 := pickles.settings.allows shallow
  have replies := replies_foreign (c := .typedArray) sound root held foreign small
    (by rw [chosen, fallback]; rfl)
  rw [chosen] at replies
  exact ⟨light, after, ran, replies⟩

end Agreement

namespace Sample

open Marshal.Table (columnObject tableObject)

/-- A table of a list that stands in it twice, of a byte array as codecs make them and of
numbers. -/
def survey : Graph :=
  ⟨#[.bare .array (.list [some .null, some (.string "é")]),
    .bare .array (.list [some (.object 0), some (.object 0)]),
    .bare .bytes (.numbers .uint8 ⟨#[7, 8]⟩),
    .bare (.numbers .int16) (.numbers .int16 ⟨#[1, 0, 255, 255]⟩),
    columnObject (.string "a") (.object 1),
    columnObject (.string "b") (.object 2),
    columnObject (.string "c") (.object 3),
    .bare .array (.list [some (.object 4), some (.object 5), some (.object 6)]),
    tableObject (.object 7)]⟩

def surveyPair : Datum := .list [.scalar .null, .scalar (.string "é")]

def surveyTable : Datum :=
  .table [.string "a", .string "b", .string "c"]
    [.list [surveyPair, surveyPair], .numbers .uint8 ⟨#[7, 8]⟩, .numbers .int16 ⟨#[1, 0, 255, 255]⟩]

theorem heldBy_surveyTable : surveyTable.HeldBy true survey (.object 8) := by
  have pair : surveyPair.HeldBy true survey (.object 0) :=
    ⟨.array, _, rfl, by decide, _, _, rfl, ⟨rfl, rfl⟩, _, _, rfl, ⟨rfl, rfl⟩, rfl⟩
  refine ⟨by decide, 2, [.object 4, .object 5, .object 6], [.object 1, .object 2, .object 3],
    ⟨⟨.object 7, rfl, rfl⟩, ⟨.cons ⟨rfl, ?_⟩ (.cons ⟨rfl, ?_⟩ (.cons ⟨rfl, ?_⟩ .nil)), by decide⟩⟩,
    rfl, ?_⟩
  · exact ⟨_, rfl, rfl, rfl⟩
  · exact ⟨_, rfl, rfl, rfl⟩
  · exact ⟨_, rfl, rfl, rfl⟩
  · exact ⟨_, _, rfl, ⟨.array, _, rfl, by decide, _, _, rfl, pair, _, _, rfl, pair, rfl⟩,
      _, _, rfl,
      ⟨by decide, by decide, .bytes, rfl, by decide, fun _ => .inl rfl, fun _ => .inr rfl⟩,
      _, _, rfl,
      ⟨by decide, by decide, .numbers .int16, rfl, by decide, nofun, fun _ => .inl rfl⟩, rfl⟩

theorem sendable_surveyTable : surveyTable.Sendable := by
  have pair : surveyPair.Sendable := ⟨⟨nofun, rfl⟩, ⟨nofun, by decide⟩, trivial⟩
  refine ⟨?_, ⟨pair, pair, trivial⟩, trivial, trivial, trivial⟩
  simp only [List.forall_mem_cons]
  exact ⟨⟨nofun, by decide⟩, ⟨nofun, by decide⟩, ⟨nofun, by decide⟩, nofun⟩

theorem fits_survey : Fits survey (.object 8) := by
  have small : ((MessagePack.encode .whole (.object 8)).run survey).1.toOption.all
      (·.size < 2 ^ 32) = true := by
    decide +kernel
  intro message k ran
  rw [ran] at small
  exact of_decide_eq_true small

/-- A table with shared parts comes back by both ways. -/
theorem survey_agrees :
    ∃ base light notices after, (standard {}).run [] = (.ok base, notices) ∧
      (base.lightweight {}).run [] = (.ok light, after) ∧
      base.RoundTrips surveyTable.depth survey (.object 8) surveyTable ∧
      light.RoundTrips 0 survey (.object 8) surveyTable := by
  obtain ⟨notices, made⟩ := standard_run {} []
  obtain ⟨whole, light, after, copied, pickled⟩ := structural_agrees_with_pickled rfl made none
    heldBy_surveyTable.weaken trivial fun depth le => allows_builtInOnly (le.trans (by decide))
  exact ⟨_, light, notices, after, made, copied, whole,
    pickled heldBy_surveyTable sendable_surveyTable fits_survey⟩

def samples : Graph :=
  ⟨#[.bare (.sub ⟨"Samples", [], none⟩ (.numbers .float32)) (.numbers .float32 ⟨#[0, 0, 128, 63]⟩)]⟩

def samplesArray : Datum := .numbers .float32 ⟨#[0, 0, 128, 63]⟩

def samplesTree : Tree := .packed "ndarray" (.object 1)

/-- The class has no code among those of number arrays, so what is written of it whole is not read,
though the built-in handlers have no trouble with it. -/
theorem samples_not_read_whole :
    samplesArray.HeldBy false samples (.object 0) ∧ samplesArray.Sendable ∧
      ∃ base light notices after s', (standard {}).run [] = (.ok base, notices) ∧
        (base.lightweight {}).run [] = (.ok light, after) ∧
        base.RoundTrips 0 samples (.object 0) samplesArray ∧
        (serialize (.object 0)).run (begun light samples) = (.ok samplesTree, s') ∧
        ((deserializeTree samplesTree).run s').1 =
          .error (.registry (.codecFailure "ndarray" "TypedArray" .deserialize
            (.error .error "Could not find typed array for code 255"))) := by
  have held : samplesArray.HeldBy false samples (.object 0) :=
    ⟨by decide, by decide, _, rfl, by decide, nofun, nofun⟩
  obtain ⟨notices, made⟩ := standard_run {} []
  exact ⟨held, trivial, _, _, notices, _, _, made, rfl,
    builtInOnly_roundTrips held rfl fun depth le => allows_builtInOnly (le.trans (by decide)), rfl,
    rfl⟩

end Sample

end Registry

end Marshal
