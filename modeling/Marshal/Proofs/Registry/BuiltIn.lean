import Marshal.Proofs.Registry.Handlers
import Marshal.Proofs.Registry.Standard

namespace Marshal.Registry

open Marshal.Effect

section Built

variable {options : Options} {d : Datum} {data : List Datum}

theorem entryFor_of_handler {h : Class × String × Codec} (mem : h ∈ Defaults.handlers)
    (own : d.class? = some h.1) (g : Graph) (v : Value) (shown : d.ShownBy false g v) :
    (builtInOnly options).entryFor g v = builtIn h := by
  rw [entryFor, shown.classOf? own]
  obtain ⟨ancestors, lineage⟩ : ∃ ancestors, h.1.lineage = h.1 :: ancestors := by
    cases h.1 <;> exact ⟨_, rfl⟩
  dsimp only
  rw [lineage]
  exact nearest_builtInOnly mem ancestors

theorem entryFor_numbers {kind : DType} {bytes : ByteArray} (g : Graph) (v : Value)
    (shown : (Datum.numbers kind bytes).ShownBy false g v) :
    (builtInOnly options).entryFor g v =
      builtIn (.typedArray, "ndarray", Defaults.fresh Defaults.writeArray Defaults.readArray) := by
  rw [entryFor, shown.classOf? rfl]
  exact nearest_numbers options kind

theorem travels_of_handler {h : Class × String × Codec} (mem : h ∈ Defaults.handlers)
    (own : d.class? = some h.1) (handles : Handles h.2.2 data d)
    (deeper : Datum.slotsDepth data ≤ d.depth)
    (sits : ∀ part ∈ data, Sits (builtInOnly options) part) : Travels (builtInOnly options) d :=
  Travels.of_handles (sound_builtInOnly options).consistent (entryFor_of_handler mem own) handles
    deeper sits

theorem sits_of_class? (h : d.class?.isSome = true → Travels (builtInOnly options) d) :
    Sits (builtInOnly options) d := by
  refine sits_of_travels fun node => h ?_
  cases d <;> first | rfl | cases node

theorem travels_list (sits : ∀ part ∈ data, Sits (builtInOnly options) part) :
    Travels (builtInOnly options) (.list data) :=
  travels_of_handler (h := (.array, "list", Defaults.fresh Defaults.writeList Defaults.readList))
    (List.mem_of_getElem? (i := 5) rfl) rfl (Defaults.handles_list data) le_rfl sits

theorem travels_builtInOnly (d : Datum) (own : d.class?.isSome = true) :
    Travels (builtInOnly options) d := by
  induction d with
  | scalar v => cases own
  | bigint n =>
    exact travels_of_handler (List.mem_of_getElem? (i := 0) rfl) rfl (Defaults.handles_bigint n)
      le_rfl (List.forall_mem_singleton.2 (sits_scalar _))
  | date time =>
    exact travels_of_handler (List.mem_of_getElem? (i := 3) rfl) rfl (Defaults.handles_date time)
      le_rfl (List.forall_mem_singleton.2 (sits_scalar _))
  | pattern source flags =>
    exact travels_of_handler (List.mem_of_getElem? (i := 4) rfl) rfl
      (Defaults.handles_pattern source flags) le_rfl
      (List.forall_mem_cons.2 ⟨sits_scalar _, List.forall_mem_singleton.2 (sits_scalar _)⟩)
  | numbers kind bytes =>
    exact Travels.of_handles (sound_builtInOnly options).consistent entryFor_numbers
      (Defaults.handles_numbers kind bytes) le_rfl
      (List.forall_mem_cons.2 ⟨sits_scalar _, List.forall_mem_singleton.2 (sits_bytes bytes)⟩)
  | list items ih => exact travels_list fun part mem => sits_of_class? (ih part mem)
  | map keys values ihk ihv =>
    -- the parts of a map are its list of keys and its list of values
    have left : Travels (builtInOnly options) (.list keys) :=
      travels_list fun part mem => sits_of_class? (ihk part mem)
    have right : Travels (builtInOnly options) (.list values) :=
      travels_list fun part mem => sits_of_class? (ihv part mem)
    refine travels_of_handler (List.mem_of_getElem? (i := 1) rfl) rfl
      (Defaults.handles_map keys values) ?_
      (List.forall_mem_cons.2 ⟨sits_of_travels fun _ => left,
        List.forall_mem_singleton.2 (sits_of_travels fun _ => right)⟩)
    simp [Datum.slotsDepth, Datum.depth, Datum.isLeaf]
  | set members ih =>
    have list : Travels (builtInOnly options) (.list members) :=
      travels_list fun part mem => sits_of_class? (ih part mem)
    refine travels_of_handler (List.mem_of_getElem? (i := 2) rfl) rfl (Defaults.handles_set members)
      ?_ (List.forall_mem_singleton.2 (sits_of_travels fun _ => list))
    simp [Datum.slotsDepth, Datum.depth, Datum.isLeaf]
  | column name values ih =>
    refine travels_of_handler (List.mem_of_getElem? (i := 7) rfl) rfl
      (Defaults.handles_column name values) ?_
      (List.forall_mem_cons.2 ⟨sits_scalar name, List.forall_mem_singleton.2 (sits_of_class? ih)⟩)
    simp [Datum.slotsDepth, Datum.depth, Datum.isLeaf]
  | table names columns ih =>
    have scalars : Travels (builtInOnly options) (.list (names.map .scalar)) := by
      refine travels_list fun part mem => ?_
      obtain ⟨name, -, rfl⟩ := List.mem_map.1 mem
      exact sits_scalar name
    have list : Travels (builtInOnly options) (.list columns) :=
      travels_list fun part mem => sits_of_class? (ih part mem)
    refine travels_of_handler (List.mem_of_getElem? (i := 8) rfl) rfl
      (Defaults.handles_table names columns) ?_
      (List.forall_mem_cons.2 ⟨sits_of_travels fun _ => scalars,
        List.forall_mem_singleton.2 (sits_of_travels fun _ => list)⟩)
    simp [Datum.slotsDepth, Datum.depth, Datum.isLeaf, Datum.slotsDepth_scalar]

end Built

theorem stands_root {r : Registry} {s : Scene} (alike : s.registry.Alike r) :
    Stands r s.stack s.stack 0 s :=
  ⟨Nat.zero_add _, alike⟩

theorem allows_builtInOnly {depth : Nat} (le : depth ≤ 100) : (builtInOnly {}).Allows depth := by
  have shallow : ∀ depth ≤ 100, defaultMaxDepth.exceededBy depth = false := by decide
  exact shallow depth le

/-- A value of the built-in types comes back from its tree as a value that holds the same, without
holes and in objects of its own: with the source and flags of patterns, the times of dates, the
element kinds and bytes of number arrays, the keys, values and members of maps and sets in their
order, and the names of columns in theirs. It is not written only if it is nested too deep. -/
theorem standard_restores {options : Options} {r : Registry} {notices : List Notice}
    (made : (standard options).run [] = (.ok r, notices)) {calls : List Call}
    (unbound : ∀ call ∈ calls, call.rebinds = false) {s : Scene}
    (reached : s.registry = r.run calls) {d : Datum} {v : Value}
    (shown : d.ShownBy false s.graph v) (own : d.class?.isSome = true) :
    (∃ t s', (serialize v).run s = (.ok t, s') ∧
      ∀ later : Scene, later.registry.forget = r.forget → s'.graph.Extends later.graph →
        s.stack ≤ later.stack →
          ∃ w last, (deserializeTree t).run later = (.ok w, last) ∧ d.ShownBy true last.graph w) ∨
      ∃ fault s', (serialize v).run s = (.error fault, s') ∧ r.TooDeep s.stack d.depth fault := by
  obtain ⟨after, same⟩ := standard_run options []
  obtain rfl : builtInOnly options = r := by
    rw [same] at made
    cases made
    rfl
  have alike : s.registry.Alike (builtInOnly options) :=
    reached ▸ (sound_builtInOnly options).remembers.run_alike unbound
  have sound : s.registry.Sound := reached ▸ (sound_builtInOnly options).run calls
  cases travels_builtInOnly d own (stands_root alike) shown with
  | @deep fault last ran deep =>
    rw [Nat.zero_add] at deep
    exact .inr ⟨fault, last, ran, deep⟩
  | @ok t s' ran _ _ reads =>
    obtain ⟨-, -, -, within⟩ := writes_of_serialize sound.remembers ran
    refine .inl ⟨t, s', ran, fun later unchanged ext room => ?_⟩
    obtain ⟨w, last, read, -, -, since, shown', -⟩ :=
      reads.deserializeTree unchanged ext (within.mono room)
    exact ⟨w, last, read, shown'⟩

namespace Sample

open Marshal.Table (columnObject tableObject)

def ledger : Graph :=
  ⟨#[.bare .array (.list [some (.number .nan), none, some (.bigint 5)]),
    .bare .date (.date (some 0)),
    .bare (.numbers .int16) (.numbers .int16 ⟨#[1, 0, 255, 255]⟩),
    .bare .set (.set [.null, .object 1, .object 11]),
    .bare (.numbers .uint8) (.numbers .uint8 ⟨#[7]⟩),
    .bare .map (.map [(.object 0, .object 3), (.string "k", .object 4)]),
    .bare .array (.list [some (.object 5), none]),
    columnObject (.string "a") (.object 6),
    columnObject (.string "b") (.object 2),
    .bare .array (.list [some (.object 7), some (.object 8)]),
    tableObject (.object 9),
    .bare .pattern (.pattern "[a-z]+" "gi")]⟩

def ledgerMap : Datum :=
  .map [.list [.scalar (.number .nan), .scalar .undefined, .bigint 5], .scalar (.string "k")]
    [.set [.scalar .null, .date (some 0), .pattern "[a-z]+" "gi"], .numbers .uint8 ⟨#[7]⟩]

def ledgerTable : Datum :=
  .table [.string "a", .string "b"]
    [.list [ledgerMap, .scalar .undefined], .numbers .int16 ⟨#[1, 0, 255, 255]⟩]

theorem shownBy_ledgerMap : ledgerMap.ShownBy false ledger (.object 5) :=
  ⟨_, rfl, ⟨by decide, by decide⟩,
    ⟨_, _, rfl, ⟨_, rfl, nofun, _, _, rfl, ⟨rfl, rfl⟩, _, _, rfl, ⟨rfl, rfl⟩, _, _, rfl, rfl, rfl⟩,
      _, _, rfl, ⟨rfl, rfl⟩, rfl⟩,
    _, _, rfl, ⟨_, rfl, ⟨by decide, by decide⟩, _, _, rfl, ⟨rfl, rfl⟩, _, _, rfl, ⟨rfl, rfl⟩,
      _, _, rfl, ⟨by decide +kernel, rfl⟩, rfl⟩,
    _, _, rfl, ⟨rfl, by decide, rfl⟩, rfl⟩

theorem shownBy_ledgerTable : ledgerTable.ShownBy false ledger (.object 10) := by
  refine ⟨by decide, 2, [.object 7, .object 8], [.object 6, .object 2],
    ⟨⟨.object 9, rfl, rfl⟩, ⟨.cons ⟨rfl, ?_⟩ (.cons ⟨rfl, ?_⟩ .nil), by decide⟩⟩, rfl, ?_⟩
  · exact ⟨_, rfl, rfl, rfl⟩
  · exact ⟨_, rfl, rfl, rfl⟩
  · exact ⟨_, _, rfl,
      ⟨_, rfl, nofun, _, _, rfl, shownBy_ledgerMap, _, _, rfl, ⟨rfl, rfl⟩, rfl⟩,
      _, _, rfl, ⟨rfl, by decide, rfl⟩, rfl⟩

/-- The table is read as an equal one by the registry that wrote it. -/
theorem ledger_restored :
    ∃ r notices t s', (standard {}).run [] = (.ok r, notices) ∧
      (serialize (.object 10)).run (begun r ledger) = (.ok t, s') ∧
      ∃ w last, (deserializeTree t).run (begun r s'.graph) = (.ok w, last) ∧
        ledgerTable.ShownBy true last.graph w := by
  obtain ⟨notices, made⟩ := standard_run {} []
  have unbound : ∀ call ∈ ([] : List Call), call.rebinds = false :=
    fun _ mem => absurd mem List.not_mem_nil
  rcases standard_restores (s := begun (builtInOnly {}) ledger) made unbound rfl shownBy_ledgerTable
      rfl with ⟨t, s', written, restored⟩ | ⟨fault, s', -, deep⟩
  · exact ⟨_, notices, t, s', made, written,
      restored (begun (builtInOnly {}) s'.graph) rfl (.refl _) le_rfl⟩
  · have shallow : ∀ depth ≤ ledgerTable.depth, (builtInOnly {}).Allows depth :=
      fun depth le => allows_builtInOnly (le.trans (by decide))
    exact absurd deep (not_tooDeep shallow (by decide) fault)

/-- A list of a byte array that has the two fields of a node besides its bytes. -/
def tagged : Graph :=
  ⟨#[.bare .array (.list []),
    { kind := some (.numbers .uint8), fields := [("tag", .string "nope"), ("data", .object 0)],
      body := .numbers .uint8 ⟨#[7]⟩ },
    .bare .array (.list [some (.object 1)])]⟩

/-- The list is written with its byte array as it is, and reading it takes the array for a node. -/
theorem tagged_bytes_not_restored :
    ∃ r notices t s', (standard {}).run [] = (.ok r, notices) ∧
      (serialize (.object 2)).run (begun r tagged) = (.ok t, s') ∧
      t = .tuple "list" (some .array) [.leaf (.object 1)] ∧
      ((deserializeTree t).run s').1 = .error (.registry (.unregisteredTag "nope")) := by
  obtain ⟨notices, made⟩ := standard_run {} []
  exact ⟨_, notices, _, ((serialize (.object 2)).run (begun (builtInOnly {}) tagged)).2, made, rfl,
    rfl, rfl⟩

end Sample

end Marshal.Registry
