import Marshal.Proofs.Held
import Marshal.Proofs.Registry.BuiltIn

namespace Marshal

open Marshal.Action (HasItems hasItems_of_madeList madeList)
open Marshal.Effect
open Marshal.Registry

namespace Registry

/-- A value that holds the datum is written as a node that is read as one that holds it, unless that
is too deep. -/
def Passes (r : Registry) (d : Datum) : Prop :=
  ∀ ⦃stack fuel depth s v⦄, Stands r stack fuel depth s → d.HeldBy false s.graph v →
    Arrives r stack (depth + d.depth) s (serializeAt fuel depth v) fun t last =>
      ReadAs r last depth (fun _ k w => d.HeldBy false k w) t

section Slots

variable {r : Registry} {d : Datum} {stack fuel depth lowest : Nat} {s : Scene}

theorem arrives_slot (passes : d.isLeaf = false → Passes r d) {v : Value}
    (stands : Stands r stack fuel depth s) (held : d.HeldBy false s.graph v)
    (le : d.isLeaf = false → depth + d.depth ≤ lowest) :
    Arrives r stack lowest s (encodeItem (serializeAt fuel depth) (some v)) fun t last =>
      SlotReadAs r last depth (fun _ k w => d.HeldBy false k w) t := by
  have run := encodeItem_run (serializeAt fuel depth) v s
  rw [held.isLeaf_eq] at run
  cases leaf : d.isLeaf with
  | true =>
    rw [leaf, if_pos rfl] at run
    refine .ok run stands.alike (.refl _) (slotReadAs_leaf (fun k ext => ?_) fun k ext => ?_)
    · exact (held.of_extends ext).look_eq_none leaf
    · exact held.of_extends ext
  | false =>
    rw [leaf, if_neg Bool.false_ne_true] at run
    exact .of_run run (.refl _)
      (((passes leaf stands held).mono (le leaf)).imp fun _ _ => ReadAs.slot)

theorem arrives_yielding {data : List Datum} {vs : List Value} {list : Value} {start : Nat}
    (passes : ∀ d ∈ data, d.isLeaf = false → Passes r d) (stands : Stands r stack fuel depth s)
    (held : Datum.AllHeldBy false s.graph data vs)
    (placed : ∀ k, s.graph.Extends k → ∀ i, k.item? list (start + i) = vs[i]?)
    (le : ∀ d ∈ data, d.isLeaf = false → depth + d.depth ≤ lowest) :
    Arrives r stack lowest s (mapItems (encodeItem (serializeAt fuel depth)) list start vs.length)
      fun slots last =>
        SlotsReadAs r last depth (fun _ k ws => Datum.AllHeldBy false k data ws) slots := by
  induction data generalizing vs s start with
  | nil =>
    obtain rfl : vs = [] := held
    exact .pure stands.alike (slotsReadAs_nil fun _ _ => rfl)
  | cons d rest ih =>
    obtain ⟨v, others, rfl, first, all⟩ := held
    obtain ⟨pass, passes⟩ := List.forall_mem_cons.1 passes
    obtain ⟨bound, bounds⟩ := List.forall_mem_cons.1 le
    refine arrives_mapItems_cons (placed _ (.refl _) 0) (arrives_slot pass stands first bound) ?_
    intro t s₁ alike₁ ext₁ reads₁
    have placed₁ (k : Graph) (ext : s₁.graph.Extends k) (i : Nat) :
        k.item? list (start + 1 + i) = others[i]? := by
      rw [Nat.add_assoc, Nat.add_comm 1]
      exact placed k (ext₁.trans ext) (i + 1)
    refine (ih passes ⟨stands.room, alike₁⟩ (all.of_extends ext₁) placed₁ bounds).imp ?_
    intro slots last reads₂ ext₂
    refine .cons (reads₁.of_extends ext₂ fun _ _ _ _ held => held) reads₂ ?_
    intro h k l w ws _ _ held ext' rest
    exact ⟨w, ws, rfl, held.of_extends ext', rest⟩

end Slots

/-- A codec that takes values holding the datum apart into values holding the data, and puts values
that hold the data together again. -/
def Carries (codec : Codec) (data : List Datum) (d : Datum) : Prop :=
  ∀ g v, d.HeldBy false g v → ∃ ref parts k,
    (codec.serialize.run v).run g = (.ok (.object ref), k) ∧ g.Extends k ∧
      k.get? ref = some (madeList parts) ∧ Datum.AllHeldBy false k data parts ∧
      ∀ h ws, k.Extends h → Datum.AllHeldBy false h data ws →
        ∃ w last, (codec.deserialize.run (.object h.size)).run (h.add (madeList ws)) =
          (.ok w, last) ∧ (h.add (madeList ws)).Extends last ∧ d.HeldBy false last w

theorem Passes.of_carries {r : Registry} (consistent : r.Consistent) {e : Entry} {d : Datum}
    {data : List Datum} (entry : ∀ g v, d.HeldBy false g v → r.entryFor g v = e)
    (carries : Carries e.codec data d) (deeper : Datum.slotsDepth data ≤ d.depth)
    (passes : ∀ part ∈ data, part.isLeaf = false → Passes r part) : Passes r d := by
  intro stack fuel depth s v stands held
  obtain rfl := entry s.graph v held
  have used := consistent.uses_entryFor s.graph v
  obtain ⟨ref, parts, k, wrote, ext, made, heldParts, together⟩ := carries s.graph v held
  refine arrives_of_parts stands (Nat.le_add_right _ _) wrote ext made ?_ ?_
    (P := fun slots last =>
      SlotsReadAs r last (depth + 1) (fun _ k ws => Datum.AllHeldBy false k data ws) slots)
  · rintro fuel s' stands' rfl
    refine arrives_yielding passes stands' heldParts (item?_madeList made) fun part mem node => ?_
    have := Datum.depth_lt_slotsDepth mem node
    omega
  · intro allowed slots last ext' reads
    exact reads.tuple consistent used allowed fun h l ws later grown held =>
      together l ws ((ext'.trans later).trans grown) held

end Registry

namespace Defaults

theorem carries_numbers (d : DType) (bytes : ByteArray) :
    Carries (fresh writeArray readArray) [.scalar (.string d.name), .numbers .uint8 bytes]
      (.numbers d bytes) := by
  rintro g v ⟨whole, small, c, found, -⟩
  have array := Graph.get?_add_size g (byteArray bytes)
  have ext := Graph.extends_add (g.add (byteArray bytes))
    (madeList [.string d.name, .object g.size])
  refine ⟨_, _, _, writeArray_run found, (Graph.extends_add _ _).trans ext, Graph.get?_add_size _ _,
    ⟨_, _, rfl, ⟨rfl, rfl⟩, _, _, rfl,
      ⟨Nat.mod_one _, small, .numbers .uint8, ext _ _ array, by decide, fun _ => .inl rfl, nofun⟩,
      rfl⟩,
    fun h ws _ held => ?_⟩
  obtain ⟨name, _, rfl, ⟨rfl, -⟩, l, _, rfl, ⟨-, -, c', data, -⟩, rfl⟩ := held
  have tuple := Graph.extends_add h (madeList [.string d.name, l])
  refine ⟨_, _, readArray_run whole small (Graph.get?_add_size _ _) (tuple.objectOf? data),
    Graph.extends_add _ _, whole, small, .numbers d, Graph.get?_add_size _ _, ?_,
    fun _ => .inl ?_, nofun⟩
  all_goals cases d <;> decide

theorem carries_list (data : List Datum) :
    Carries (fresh writeList readList) data (.list data) := by
  rintro g v ⟨c, vs, found, -, all⟩
  have list : g.items? v = some (vs.map some) := by
    rw [Graph.items?, found]
    rfl
  have wrote := writeList_run list
  have items : (vs.map some).map (·.getD .undefined) = vs := by
    rw [List.map_map]
    exact List.map_id vs
  rw [items] at wrote
  refine ⟨_, _, _, wrote, Graph.extends_add _ _, Graph.get?_add_size _ _,
    all.of_extends (Graph.extends_add _ _), fun h ws _ held => ?_⟩
  exact ⟨.object h.size, _, rfl, .refl _,
    Datum.heldBy_madeList (Graph.get?_add_size _ _) (held.of_extends (Graph.extends_add _ _))⟩

theorem carries_column (name : Value) (values : Datum) :
    Carries columnCodec [.scalar name, values] (.column name values) := by
  rintro g v ⟨text, w, found, ⟨rows, sized⟩, held⟩
  have primitive := Datum.isPrimitive_of_text text
  have wrote : (writeColumn v).run g = (.ok (.object g.size), g.add (madeList [name, w])) := by
    rw [writeColumn, run_bind, Table.columnToStructure_run found]
    rfl
  refine ⟨_, _, _, wrote, Graph.extends_add _ _, Graph.get?_add_size _ _,
    ⟨_, _, rfl, ⟨rfl, primitive⟩, _, _, rfl, held.of_extends (Graph.extends_add _ _), rfl⟩,
    fun h ws _ held' => ?_⟩
  obtain ⟨name, _, rfl, ⟨rfl, -⟩, w', _, rfl, held', rfl⟩ := held'
  have ext := (Graph.extends_add h (madeList [name, w'])).trans
    (Graph.extends_add _ (Table.columnObject name w'))
  exact ⟨_, _, Table.columnOfStructure_run (Graph.get?_add_size _ _), Graph.extends_add _ _,
    text, w', Graph.get?_add_size _ _, ⟨rows, held.sized sized (held'.of_extends ext)⟩,
    held'.of_extends ext⟩

theorem carries_table (names : List Value) (columns : List Datum) :
    Carries tableCodec [.list (names.map .scalar), .list columns] (.table names columns) := by
  rintro g v ⟨texts, rows, objects, values, table, length, all⟩
  have primitives : ∀ name ∈ names, name.isPrimitive = true :=
    fun name mem => Datum.isPrimitive_of_text (texts name mem)
  have ext₁ := Graph.extends_add g (madeList names)
  have ext₂ := Graph.extends_add (g.add (madeList names)) (madeList values)
  have ext₃ := Graph.extends_add ((g.add (madeList names)).add (madeList values))
    (madeList [.object g.size, .object (g.size + 1)])
  have first := (ext₂.trans ext₃) _ _ (Graph.get?_add_size g (madeList names))
  have second := ext₃ _ _ (Graph.get?_add_size (g.add (madeList names)) (madeList values))
  have tuple := Graph.get?_add_size ((g.add (madeList names)).add (madeList values))
    (madeList [.object g.size, .object (g.size + 1)])
  rw [Graph.size_add] at second
  rw [Graph.size_add, Graph.size_add] at tuple
  refine ⟨_, _, _, writeTable_run table length, (ext₁.trans ext₂).trans ext₃, tuple,
    ⟨_, _, rfl, Datum.heldBy_madeList first (Datum.allHeldBy_scalar_iff.2 ⟨rfl, primitives⟩),
      _, _, rfl, Datum.heldBy_madeList second (all.of_extends ((ext₁.trans ext₂).trans ext₃)), rfl⟩,
    fun h ws _ held => ?_⟩
  obtain ⟨l, _, rfl, heldNames, l', _, rfl, heldValues, rfl⟩ := held
  obtain ⟨names', listed, heldNames⟩ := heldNames.exists_items
  obtain ⟨rfl, -⟩ := Datum.allHeldBy_scalar_iff.1 heldNames
  obtain ⟨values', listed', heldValues⟩ := heldValues.exists_items
  have length' : names'.length = values'.length := by
    rw [length, ← all.length_eq, heldValues.length_eq]
  have distinct : names'.Pairwise fun a b => a.same b = false := by
    have distinct := table.even.distinct
    rwa [List.map_fst_zip length.le] at distinct
  have data := Graph.extends_add h (madeList [l, l'])
  have pair : (h.add (madeList [l, l'])).objectOf? (.object h.size) = some (madeList [l, l']) :=
    Graph.get?_add_size _ _
  have sized := all.sized (table.even.sized length) (heldValues.of_extends data)
  obtain ⟨ref, columns', last, ran, grown, -, table'⟩ :=
    Table.ofStructure_run pair (listed.of_extends data) (listed'.of_extends data) length' sized
      distinct
  exact ⟨_, _, ran, grown, texts, rows, columns', values', table', length',
    heldValues.of_extends (data.trans grown)⟩

end Defaults

namespace Registry

section Built

variable {options : Options} {d : Datum} {data : List Datum}

theorem entryFor_of_heldBy {h : Class × String × Codec} (mem : h ∈ Defaults.handlers) {c : Class}
    (own : d.class? = some c) (within : c.isWithin h.1 = true) {known : Bool} (g : Graph)
    (v : Value)
    (held : d.HeldBy known g v) : (builtInOnly options).entryFor g v = builtIn h := by
  obtain ⟨c', instance', below⟩ := held.exists_classOf? own
  rw [entryFor, instance']
  exact nearest_of_isWithin mem (Class.isWithin_trans below within)

theorem passes_of_handler {h : Class × String × Codec} (mem : h ∈ Defaults.handlers) {c : Class}
    (own : d.class? = some c) (within : c.isWithin h.1 = true) (carries : Carries h.2.2 data d)
    (deeper : Datum.slotsDepth data ≤ d.depth)
    (passes : ∀ part ∈ data, part.isLeaf = false → Passes (builtInOnly options) part) :
    Passes (builtInOnly options) d :=
  Passes.of_carries (sound_builtInOnly options).consistent (entryFor_of_heldBy mem own within)
    carries deeper passes

theorem passes_list
    (passes : ∀ part ∈ data, part.isLeaf = false → Passes (builtInOnly options) part) :
    Passes (builtInOnly options) (.list data) :=
  passes_of_handler (h := (.array, "list", Defaults.fresh Defaults.writeList Defaults.readList))
    (List.mem_of_getElem? (i := 5) rfl) rfl (by decide) (Defaults.carries_list data) le_rfl passes

theorem passes_builtInOnly (d : Datum) (own : d.class?.isSome = true) :
    Passes (builtInOnly options) d := by
  have node {part : Datum} (ih : part.class?.isSome = true → Passes (builtInOnly options) part)
      (node : part.isLeaf = false) : Passes (builtInOnly options) part := by
    refine ih ?_
    cases part <;> first | rfl | cases node
  induction d with
  | scalar => cases own
  | numbers kind bytes =>
    refine passes_of_handler (h := (.typedArray, "ndarray", _)) (List.mem_of_getElem? (i := 6) rfl)
      rfl ?_ (Defaults.carries_numbers kind bytes) le_rfl ?_
    · cases kind <;> decide
    · exact List.forall_mem_cons.2 ⟨nofun, List.forall_mem_singleton.2 nofun⟩
  | list items ih => exact passes_list fun part mem => node (ih part mem)
  | column name values ih =>
    refine passes_of_handler (List.mem_of_getElem? (i := 7) rfl) rfl (by decide)
      (Defaults.carries_column name values) ?_
      (List.forall_mem_cons.2 ⟨nofun, List.forall_mem_singleton.2 (node ih)⟩)
    simp [Datum.slotsDepth, Datum.depth, Datum.isLeaf]
  | table names columns ih =>
    have scalars : Passes (builtInOnly options) (.list (names.map .scalar)) := by
      refine passes_list fun part mem => ?_
      obtain ⟨name, -, rfl⟩ := List.mem_map.1 mem
      exact nofun
    have list : Passes (builtInOnly options) (.list columns) :=
      passes_list fun part mem => node (ih part mem)
    refine passes_of_handler (List.mem_of_getElem? (i := 8) rfl) rfl (by decide)
      (Defaults.carries_table names columns) ?_
      (List.forall_mem_cons.2 ⟨fun _ => scalars, List.forall_mem_singleton.2 fun _ => list⟩)
    simp [Datum.slotsDepth, Datum.depth, Datum.isLeaf, Datum.slotsDepth_scalar]
  | bigint | date | pattern | map | set => exact fun _ _ _ _ _ _ held => held.elim

end Built

end Registry

end Marshal
