import Marshal.Proofs.ByteCodec
import Marshal.Proofs.Registry.Endless
import Marshal.Proofs.Registry.Standard

namespace Marshal

open Marshal.Action (Keeps Lasting)

namespace Defaults

variable {R : Graph → Graph → Prop} (lasting : Lasting R) (grows : ∀ g o, R g (g.add o))

include lasting grows

theorem keeps_writeBigint (v : Value) : Keeps R (writeBigint v) := by
  refine .bind lasting (.objectOf? lasting v) fun o => ?_
  split
  · exact .add grows _
  · exact .add grows _
  · exact .throw lasting _

theorem keeps_readBigint (data : Value) : Keeps R (readBigint data) :=
  .bind lasting (.iterate lasting grows data) fun _ =>
    .bind lasting (.wholeNumber lasting grows _) fun _ => .pure lasting _

theorem keeps_writeMap (v : Value) : Keeps R (writeMap v) := by
  refine .bind lasting (.objectOf? lasting v) fun o => ?_
  split
  · exact .bind lasting (.add grows _) fun _ => .bind lasting (.add grows _) fun _ => .add grows _
  · exact .throw lasting _

theorem keeps_readMap (data : Value) : Keeps R (readMap data) := by
  have property (v : Value) (name : String) : Keeps R (Action.property v name) :=
    .property lasting fun _ => grows
  refine .bind lasting (.iterate lasting grows data) fun items =>
    .bind lasting (.objectOf? lasting _) fun found => ?_
  split
  · dsimp only
    split
    · refine .bind lasting (.mapM lasting (fun (key, i) => ?_) _) fun pairs =>
        .ite (.bind lasting (.throw lasting _) fun _ => .add grows _) (.add grows _)
      cases key with
      | some => exact .bind lasting (property _ _) fun _ => .pure lasting _
      | none => exact .pure lasting _
    · refine .ite (.add grows _) (.bind lasting (property _ _) fun _ => ?_)
      split
      all_goals exact .throw lasting _
    · exact .throw lasting _
  · exact .throw lasting _

theorem keeps_writeSet (v : Value) : Keeps R (writeSet v) := by
  refine .bind lasting (.objectOf? lasting v) fun o => ?_
  split
  · exact .bind lasting (.add grows _) fun _ => .add grows _
  · exact .throw lasting _

theorem keeps_readSet (data : Value) : Keeps R (readSet data) :=
  .bind lasting (.iterate lasting grows data) fun _ => .setOf lasting grows _

theorem keeps_writeDate (v : Value) : Keeps R (writeDate v) := by
  refine .bind lasting (.objectOf? lasting v) fun o => ?_
  split
  · exact .add grows _
  · exact .add grows _
  · exact .throw lasting _

theorem keeps_readDate (data : Value) : Keeps R (readDate data) :=
  .bind lasting (.iterate lasting grows data) fun _ =>
    .bind lasting (.time lasting grows _) fun _ => .add grows _

theorem keeps_writePattern (v : Value) : Keeps R (writePattern v) :=
  .bind lasting (.property lasting fun _ => grows) fun _ =>
    .bind lasting (.property lasting fun _ => grows) fun _ => .add grows _

theorem keeps_readPattern (data : Value) : Keeps R (readPattern data) :=
  .bind lasting (.iterate lasting grows data) fun _ => .patternOf lasting grows _ _

theorem keeps_writeList (v : Value) : Keeps R (writeList v) :=
  .bind lasting (.iterate lasting grows v) fun _ => .add grows _

theorem keeps_writeArray (v : Value) : Keeps R (writeArray v) := by
  refine .bind lasting (.objectOf? lasting v) fun o => ?_
  split
  · exact .bind lasting (.add grows _) fun _ => .add grows _
  · exact .throw lasting _

theorem keeps_stored (v : Value) (size : Nat) : Keeps R (stored v size) := by
  have byte (w : Value) : Keeps R (storedByte w) := by
    rw [storedByte.eq_def]
    split
    all_goals first | exact .pure lasting _ | exact .throw lasting _
  have bytes (items : List Value) : Keeps R (do
      let bytes ← items.mapM storedByte
      return Bytes.ofList (bytes ++ List.replicate (size - bytes.length) 0)) :=
    .bind lasting (.mapM lasting byte items) fun _ => .pure lasting _
  refine .bind lasting (.objectOf? lasting v) fun found => ?_
  split
  · dsimp only
    split
    all_goals
      refine .bind lasting (by
        first | exact .pure lasting _ | exact .indexedValues lasting grows size v) fun items => ?_
      exact .ite (.bind lasting (.throw lasting _) fun _ => bytes items) (bytes items)
  · exact .pure lasting _

omit lasting grows in
theorem exists_cause_of_decode {dtype : String} {bytes : ByteArray} {fault : Fault}
    (failed : NumberArray.decode dtype bytes = .error fault) : ∃ cause, fault = .cause cause := by
  rw [NumberArray.decode] at failed
  split at failed
  · cases failed
    exact ⟨_, rfl⟩
  · split at failed
    · cases failed
    · cases failed
      exact ⟨_, rfl⟩

theorem keeps_arrayOf (dtype data : Value) : Keeps R (arrayOf dtype data) := by
  have text := Keeps.text lasting grows
  rw [arrayOf.eq_def]
  dsimp only
  split
  on_goal 1 => split
  on_goal 3 => refine .bind lasting (text dtype) fun _ => ?_
  all_goals
    refine .bind lasting (by first | exact .pure lasting _ | exact .throw lasting _) fun d =>
      .bind lasting (.property lasting fun _ => grows) fun size =>
        .ite (.bind lasting (text size) fun _ => .throw lasting _) (.bind lasting ?known fun n =>
          .bind lasting (.get lasting) fun g => ?_)
    case known =>
      split
      · exact .pure lasting _
      · exact .pure lasting _
      · split
        · exact .ite (.throw lasting _) (.pure lasting _)
        · exact .pure lasting _
      · exact .pure lasting _
    split
    · split
      · exact .add grows _
      next failed =>
        obtain ⟨cause, rfl⟩ := exists_cause_of_decode failed
        exact .throw lasting cause
    · exact .bind lasting (keeps_stored lasting grows data n) fun _ => .add grows _

theorem keeps_readArray (data : Value) : Keeps R (readArray data) :=
  .bind lasting (.iterate lasting grows data) fun _ => keeps_arrayOf lasting grows _ _

theorem keeps_writeColumn (v : Value) : Keeps R (writeColumn v) :=
  .bind lasting (Table.keeps_columnToStructure lasting grows v) fun _ => .add grows _

theorem keeps_writeTable (v : Value) : Keeps R (writeTable v) :=
  .bind lasting (Table.keeps_toStructure lasting grows v) fun _ => .add grows _

/-- The built-in handlers change nothing that is there. -/
theorem keeps_handlers {h : Class × String × Codec} (mem : h ∈ handlers) (v : Value) :
    Keeps R (h.2.2.serialize.run v) ∧ Keeps R (h.2.2.deserialize.run v) := by
  simp only [handlers, List.mem_cons, List.not_mem_nil, or_false] at mem
  rcases mem with rfl | rfl | rfl | rfl | rfl | rfl | rfl | rfl | rfl
  · exact ⟨keeps_writeBigint lasting grows v, keeps_readBigint lasting grows v⟩
  · exact ⟨keeps_writeMap lasting grows v, keeps_readMap lasting grows v⟩
  · exact ⟨keeps_writeSet lasting grows v, keeps_readSet lasting grows v⟩
  · exact ⟨keeps_writeDate lasting grows v, keeps_readDate lasting grows v⟩
  · exact ⟨keeps_writePattern lasting grows v, keeps_readPattern lasting grows v⟩
  · exact ⟨keeps_writeList lasting grows v, .pure lasting v⟩
  · exact ⟨keeps_writeArray lasting grows v, keeps_readArray lasting grows v⟩
  · exact ⟨keeps_writeColumn lasting grows v, Table.keeps_columnOfStructure lasting grows v⟩
  · exact ⟨keeps_writeTable lasting grows v, Table.keeps_ofStructure lasting grows v⟩

end Defaults

namespace Registry

variable {options : Options}

theorem extends_of_uses (adds : (builtInOnly options).fallback.OnlyAdds) {e : Entry}
    (used : (builtInOnly options).Uses e) (v : Value) :
    Keeps Graph.Extends (e.codec.serialize.run v) ∧
      Keeps Graph.Extends (e.codec.deserialize.run v) := by
  have lasting := Action.lasting_extends
  rcases used with rfl | bound
  · have given : Keeps Graph.Extends (Pickle.bytesOf (builtInOnly options).fallback.name v) := by
      refine .bind lasting (.get lasting) fun g => ?_
      split
      · exact .pure lasting _
      · exact .ite (.throw lasting _) (.throw lasting _)
    exact ⟨.bind lasting (adds.encode v) fun _ => .add Graph.extends_add _,
      .bind lasting given fun bytes => .bind lasting (adds.decode bytes) fun w => .pure lasting w⟩
  · obtain ⟨entry, mem, rfl⟩ := List.mem_map.1 bound
    obtain ⟨h, handler, rfl⟩ := List.mem_map.1 mem
    exact Defaults.keeps_handlers lasting Graph.extends_add handler v

/-- With a fallback codec that leaves objects as they are, so does whatever happens. -/
theorem extends_of_builtInOnly (adds : (builtInOnly options).fallback.OnlyAdds) {g k : Graph}
    (onward : Onward (builtInOnly options) g k) : g.Extends k := by
  induction onward with
  | refl => exact .refl g
  | add _ o ih => exact ih.trans (Graph.extends_add _ o)
  | serialize _ used v ih => exact ih.trans ((extends_of_uses adds used v).1.stands _)
  | deserialize _ used data ih => exact ih.trans ((extends_of_uses adds used data).2.stands _)

/-- One value is directly inside another one: an item of a list, a key or a value of a map, or a
member of a set, in instances of these classes and of classes below them. -/
inductive Inside (g : Graph) (v w : Value) : Prop where
  | item {c : Class} {items : List (Option Value)} (own : g.kindOf? v = some c)
      (list : c.isWithin .array = true) (found : g.items? v = some items) (mem : some w ∈ items)
  | entry {c : Class} {entries : List (Value × Value)} (own : g.kindOf? v = some c)
      (map : c.isWithin .map = true) (found : (g.objectOf? v).map Object.body = some (.map entries))
      (mem : w ∈ entries.map Prod.fst ∨ w ∈ entries.map Prod.snd)
  | member {c : Class} {members : List Value} (own : g.kindOf? v = some c)
      (set : c.isWithin .set = true)
      (found : (g.objectOf? v).map Object.body = some (.set members)) (mem : w ∈ members)

theorem entryFor_of_kindOf? {g : Graph} {v : Value} {c : Class} {h : Class × String × Codec}
    (mem : h ∈ Defaults.handlers) (own : g.kindOf? v = some c) (within : c.isWithin h.1 = true) :
    (builtInOnly options).entryFor g v = builtIn h := by
  cases v with
  | object ref =>
    have class? : g.classOf? (.object ref) = some c := own
    rw [entryFor, class?]
    exact nearest_of_isWithin mem within
  | _ => cases own

theorem Inside.holds {g : Graph} {v w : Value} (h : Inside g v w) :
    (builtInOnly options).Holds g v w := by
  have list : (Class.array, "list", Defaults.fresh Defaults.writeList Defaults.readList) ∈
    Defaults.handlers := List.mem_of_getElem? (i := 5) rfl
  have bound : (builtInOnly options).nearest Class.array.lineage = _ := nearest_of_isWithin list rfl
  have lists := congrArg (·.codec.serialize.run) bound
  have other {c k : Class} (own : g.kindOf? v = some c) (within : c.isWithin k = true)
      (apart : k.isWithin (.numbers .uint8) = false)
      (apart' : (Class.numbers .uint8).isWithin k = false) : g.isBytes v = false := by
    rw [Graph.isBytes, own]
    exact Class.isWithin_eq_false within apart apart'
  cases h with
  | item own within found mem =>
    exact .item (other own within (by decide) (by decide)) found mem
      (.inl (congrArg (·.codec.serialize.run) (entryFor_of_kindOf? list own within)))
  | entry own within found mem =>
    have map : (Class.map, "Map", Defaults.fresh Defaults.writeMap Defaults.readMap) ∈
      Defaults.handlers := List.mem_of_getElem? (i := 1) rfl
    exact .entry (other own within (by decide) (by decide)) found mem
      (congrArg (·.codec.serialize.run) (entryFor_of_kindOf? map own within)) lists
  | member own within found mem =>
    have set : (Class.set, "Set", Defaults.fresh Defaults.writeSet Defaults.readSet) ∈
      Defaults.handlers := List.mem_of_getElem? (i := 2) rfl
    exact .member (other own within (by decide) (by decide)) found mem
      (congrArg (·.codec.serialize.run) (entryFor_of_kindOf? set own within)) lists

/-- Lists, maps and sets of which each is inside another one are a cycle for the registry with the
built-in handlers. -/
theorem cyclic_builtInOnly (adds : (builtInOnly options).fallback.OnlyAdds) {g : Graph}
    {C : Value → Prop} (closed : ∀ v, C v → ∃ w, C w ∧ Inside g v w) :
    (builtInOnly options).Cyclic g C :=
  .of_extends (fun _ _ _ => extends_of_builtInOnly adds) fun v mem =>
    (closed v mem).imp fun _ ⟨next, inside⟩ => ⟨next, inside.holds⟩

/-- No list, map or set that is inside itself, however far, is ever written with the built-in
handlers. -/
theorem cycle_neverWritten (adds : (options.fallback.getD .messagePack).OnlyAdds) {s : Scene}
    (here : s.registry = builtInOnly options) {C : Value → Prop}
    (closed : ∀ v, C v → ∃ w, C w ∧ Inside s.graph v w) {v : Value} (within : C v) :
    NeverWritten s v := by
  obtain ⟨w, next, inside⟩ := closed v within
  have sound := sound_builtInOnly options
  have cyclic : (builtInOnly options).Cyclic s.graph C := cyclic_builtInOnly adds closed
  have endless := cyclic.endless sound.consistent
  rw [← here] at sound endless
  exact endless.neverWritten sound ⟨.refl, w, next, here ▸ inside.holds⟩

end Registry

end Marshal
