import Marshal.Proofs.Held
import Marshal.Table.Payload

namespace Marshal

open Marshal.Action
open Marshal.Effect

namespace Table

section Columns

variable {g : Graph} {v name values : Value}

theorem writeColumn_run (object : g.objectOf? v = some (columnObject name values)) :
    (writeColumn v).run g = (.ok (.object g.size), g.add (madeList [name, values])) := by
  rw [writeColumn, run_bind, columnToStructure_run object]
  rfl

theorem readColumn_run (pair : g.items? v = some [some name, some values])
    (text : name.text?.isSome = true) (holds : holdsValues g values = true) :
    (readColumn v).run g = (.ok (.object g.size), g.add (columnObject name values)) := by
  rw [readColumn, run_bind, run_get]
  dsimp only
  rw [pair]
  simp only [Option.getD_some, Option.isNone_iff_eq_none, Option.ne_none_iff_isSome.2 text,
    if_false]
  rw [run_bind, run_get]
  dsimp only
  rw [holds, if_pos rfl]
  rfl

end Columns

def pairLists (pairs : List (Value × Value)) : List Object :=
  pairs.map fun pair => madeList [pair.1, pair.2]

theorem Lists.writeTable_run {g : Graph} {table : Value} {columns : List Value}
    {pairs : List (Value × Value)} (h : Lists g table columns pairs) :
    (writeTable table).run g = (.ok (.object (added g (pairLists pairs)).size),
      (added g (pairLists pairs)).add
        (madeList ((List.range' g.size (pairLists pairs).length).map .object))) := by
  rw [writeTable, run_bind, h.columnItems_run]
  dsimp only
  rw [run_bind, mapM_add_run (fun ref => some (.object ref)) (pairLists pairs) ?_ (.refl g)]
  · dsimp only
    rw [add_run, madeList, List.map_map]
    rfl
  · rw [pairLists, List.forall₂_map_left_iff, List.forall₂_map_right_iff]
    refine h.objects.imp fun column pair found k ext => ?_
    dsimp only
    rw [← bind_pure_comp, run_bind, writeColumn_run (ext.objectOf? found)]
    rfl

theorem holdsValues_of_extends {g k : Graph} (ext : g.Extends k) {v : Value}
    (h : holdsValues g v = true) : holdsValues k v = true := by
  cases found : g.objectOf? v with
  | none =>
    rw [holdsValues, found] at h
    cases h
  | some o =>
    rw [holdsValues, found] at h
    rw [holdsValues, ext.objectOf? found]
    exact h

section Spelled

variable {g k : Graph} {v payload : Value} {pair : Value × Value} {pairs : List (Value × Value)}

/-- A list of two items, a text and a list or number array. -/
structure Spells (g : Graph) (payload : Value) (pair : Value × Value) : Prop where
  items : g.items? payload = some [some pair.1, some pair.2]
  text : pair.1.text?.isSome = true
  holds : holdsValues g pair.2 = true

def SpellsAll (g : Graph) (payload : Value) (pairs : List (Value × Value)) : Prop :=
  ∃ payloads, g.items? payload = some (payloads.map some) ∧ List.Forall₂ (Spells g) payloads pairs

theorem items?_of_extends {items : List (Option Value)} (ext : g.Extends k)
    (found : g.items? v = some items) : k.items? v = some items := by
  cases object : g.objectOf? v with
  | none =>
    rw [Graph.items?, object] at found
    cases found
  | some o =>
    rw [Graph.items?, object] at found
    rw [Graph.items?, ext.objectOf? object]
    exact found

theorem Spells.of_extends (ext : g.Extends k) (spells : Spells g payload pair) :
    Spells k payload pair :=
  ⟨items?_of_extends ext spells.items, spells.text, holdsValues_of_extends ext spells.holds⟩

theorem SpellsAll.of_extends (ext : g.Extends k) (spells : SpellsAll g payload pairs) :
    SpellsAll k payload pairs := by
  obtain ⟨payloads, items, all⟩ := spells
  exact ⟨payloads, items?_of_extends ext items, all.imp fun _ _ spells => spells.of_extends ext⟩

theorem Spells.readColumn_run (spells : Spells g payload pair) :
    (readColumn payload).run g = (.ok (.object g.size), g.add (columnObject pair.1 pair.2)) :=
  Table.readColumn_run spells.items spells.text spells.holds

theorem readColumn_eq_ok (ran : (readColumn payload).run g = (.ok v, k)) :
    ∃ pair, Spells g payload pair ∧ v = .object g.size ∧
      k = g.add (columnObject pair.1 pair.2) := by
  rw [readColumn] at ran
  obtain ⟨_, _, ⟨⟩, ran⟩ := run_bind_eq_ok.1 ran
  dsimp only at ran
  split at ran
  next name values items =>
    split at ran
    next => cases ran
    next text =>
    obtain ⟨_, _, ⟨⟩, ran⟩ := run_bind_eq_ok.1 ran
    split at ran
    next holds =>
      cases ran
      cases name with
      | none => exact absurd rfl text
      | some name =>
        cases values with
        | none => cases holds
        | some values =>
          exact ⟨(name, values), ⟨items, by simpa [Option.isSome_iff_ne_none] using text, holds⟩,
            rfl, rfl⟩
    next => cases ran
  next => cases ran

theorem SpellsAll.readTable_run_eq (spells : SpellsAll g payload pairs) :
    (readTable payload).run g =
      (build (newColumns g pairs)).run (added g (columnObjects pairs)) := by
  obtain ⟨payloads, items, all⟩ := spells
  rw [readTable, run_bind, run_get]
  dsimp only
  rw [items]
  dsimp only
  rw [run_bind, mapM_add_run .object (columnObjects pairs) ?_ (.refl g)]
  · rfl
  · rw [columnObjects, List.forall₂_map_left_iff, List.forall₂_map_right_iff]
    exact all.imp fun payload pair here k ext => (here.of_extends ext).readColumn_run

end Spelled

/-- The payload of a column. -/
structure IsPair (g : Graph) (payload : Value) (pair : Value × Value) : Prop where
  items : HasItems g payload [pair.1, pair.2]
  text : pair.1.text?.isSome = true
  holds : holdsValues g pair.2 = true

theorem readTable_run {g : Graph} {rows : Nat} {v : Value} {payloads : List Value}
    {pairs : List (Value × Value)} (list : HasItems g v payloads)
    (all : List.Forall₂ (IsPair g) payloads pairs) (sized : ∀ pair ∈ pairs, Sized g pair.2 rows)
    (distinct : (pairs.map Prod.fst).Pairwise fun a b => a.same b = false) :
    ∃ table columns k, (readTable v).run g = (.ok (.object table), k) ∧ g.Extends k ∧
      g.size ≤ table ∧ IsTable k rows (.object table) columns pairs := by
  have spells : SpellsAll g v pairs :=
    ⟨payloads, items?_of_hasItems list, all.imp fun payload pair held =>
      ⟨items?_of_hasItems held.items, held.text, held.holds⟩⟩
  rw [spells.readTable_run_eq]
  exact build_added_run sized distinct

end Table

namespace Datum

open Marshal.Table

def columnPayload (name : Value) (values : Datum) : Datum := .list [.scalar name, values]

def columnPayloads (names : List Value) (columns : List Datum) : List Datum :=
  (names.zip columns).map fun pair => columnPayload pair.1 pair.2

def tablePayload (names : List Value) (columns : List Datum) : Datum :=
  .list (columnPayloads names columns)

/-- Values that hold the datum are taken apart into values that hold its payload, and any values
that hold the payload are put together to new values that hold the datum. -/
def Packs (write read : Value → Action Value) (payload d : Datum) : Prop :=
  ∀ g v, d.HeldBy true g v →
    (∃ w k, (write v).run g = (.ok w, k) ∧ g.Extends k ∧ payload.HeldBy true k w) ∧
      ∀ h w, payload.HeldBy false h w →
        ∃ ref last, (read w).run h = (.ok (.object ref), last) ∧ h.Extends last ∧ h.size ≤ ref ∧
          d.HeldBy false last (.object ref)

variable {g k : Graph} {rows : Nat} {name : Value} {values : Datum} {names held : List Value}
  {columns : List Datum}

theorem HeldBy.holdsValues {known : Bool} {d : Datum} {v : Value} (h : d.HeldBy known g v)
    (sized : Sized g v rows) : holdsValues g v = true := by
  obtain ⟨o, found, bare, -⟩ := sized
  rw [Table.holdsValues, found]
  cases d with
  | scalar => exact absurd h (HeldBy.not_scalar found)
  | numbers =>
    obtain ⟨-, -, _, found', -⟩ := h
    cases Option.some.inj (found'.symm.trans found)
    rfl
  | list =>
    obtain ⟨_, _, found', -⟩ := h
    cases Option.some.inj (found'.symm.trans found)
    rfl
  | column =>
    obtain ⟨_, _, found', _⟩ := h
    cases Option.some.inj (found'.symm.trans found)
    cases bare
  | table =>
    obtain ⟨-, _, _, _, ⟨⟨_, found', _⟩, _⟩, _⟩ := h
    cases Option.some.inj (found'.symm.trans found)
    cases bare
  | bigint | date | pattern | map | set => exact h.elim

theorem heldBy_columnPayload {known : Bool} {v w : Value} (text : name.text?.isSome = true)
    (found : g.objectOf? v = some (madeList [name, w])) (held : values.HeldBy known g w) :
    (columnPayload name values).HeldBy known g v :=
  heldBy_madeList found ⟨_, _, rfl, ⟨rfl, isPrimitive_of_text text⟩, _, _, rfl, held, rfl⟩

theorem HeldBy.exists_values {known : Bool} {v : Value}
    (h : (columnPayload name values).HeldBy known g v) :
    ∃ w, HasItems g v [name, w] ∧ values.HeldBy known g w := by
  obtain ⟨items, list, all⟩ := h.exists_items
  obtain ⟨_, _, rfl, ⟨rfl, -⟩, w, _, rfl, held, rfl⟩ := all
  exact ⟨w, list, held⟩

theorem packs_column (name : Value) (values : Datum) :
    Packs writeColumn readColumn (columnPayload name values) (.column name values) := by
  rintro g v ⟨text, w, found, ⟨rows, sized⟩, held⟩
  refine ⟨⟨_, _, writeColumn_run found, Graph.extends_add _ _, heldBy_columnPayload text
    (Graph.get?_add_size _ _) (held.of_extends (Graph.extends_add _ _))⟩, fun h v' payload => ?_⟩
  obtain ⟨w', pair, held'⟩ := payload.exists_values
  have sized' := held.sized sized held'
  have ext := Graph.extends_add h (columnObject name w')
  have read := readColumn_run (items?_of_hasItems pair) text (held'.holdsValues sized')
  exact ⟨_, _, read, ext, le_rfl, text, w', Graph.get?_add_size _ _, ⟨rows, sized'.of_extends ext⟩,
    held'.of_extends ext⟩

theorem allHeldBy_pairLists (texts : ∀ name ∈ names, name.text?.isSome = true)
    (length : names.length = held.length) (all : AllHeldBy true g columns held) {lists : List Value}
    (found : List.Forall₂ (fun v o => g.objectOf? v = some o) lists (pairLists (names.zip held))) :
    AllHeldBy true g (columnPayloads names columns) lists := by
  induction names generalizing columns held lists with
  | nil =>
    cases found
    rfl
  | cons name names ih =>
    cases columns with
    | nil =>
      obtain rfl : held = [] := all
      cases length
    | cons d rest =>
      obtain ⟨v, others, rfl, first, all⟩ := all
      obtain ⟨text, texts⟩ := List.forall_mem_cons.1 texts
      cases found with
      | cons here found =>
        exact ⟨_, _, rfl, heldBy_columnPayload text here first,
          ih texts (Nat.succ.inj length) all found⟩

theorem exists_pairs (texts : ∀ name ∈ names, name.text?.isSome = true)
    (length : names.length = held.length) (all : AllHeldBy true g columns held)
    (sized : ∀ v ∈ held, Sized g v rows) {payloads : List Value}
    (packed : AllHeldBy false k (columnPayloads names columns) payloads) :
    ∃ found, List.Forall₂ (IsPair k) payloads (names.zip found) ∧ names.length = found.length ∧
      AllHeldBy false k columns found := by
  induction names generalizing columns held payloads with
  | nil =>
    obtain rfl := List.eq_nil_of_length_eq_zero length.symm
    obtain rfl : columns = [] := List.eq_nil_of_length_eq_zero all.length_eq
    obtain rfl : payloads = [] := packed
    exact ⟨[], .nil, rfl, rfl⟩
  | cons name names ih =>
    cases columns with
    | nil =>
      obtain rfl : held = [] := all
      cases length
    | cons d rest =>
      obtain ⟨v, others, rfl, first, all⟩ := all
      obtain ⟨payload, payloads, rfl, lead, packed⟩ := packed
      obtain ⟨text, texts⟩ := List.forall_mem_cons.1 texts
      obtain ⟨size, sizes⟩ := List.forall_mem_cons.1 sized
      obtain ⟨w, pair, back⟩ := lead.exists_values
      obtain ⟨found, pairs, length, all⟩ := ih texts (Nat.succ.inj length) all sizes packed
      exact ⟨w :: found, .cons ⟨pair, text, back.holdsValues (first.sized size back)⟩ pairs,
        congrArg (· + 1) length, w, found, rfl, back, all⟩

theorem packs_table (names : List Value) (columns : List Datum) :
    Packs writeTable readTable (tablePayload names columns) (.table names columns) := by
  rintro g v ⟨texts, rows, objects, held, table, length, all⟩
  have sized := table.even.sized length
  refine ⟨⟨_, _, table.lists.writeTable_run, ?_, ?_⟩, fun h v' payload => ?_⟩
  · exact (extends_added _ _).trans (Graph.extends_add _ _)
  · have list := Graph.extends_add (added g (pairLists (names.zip held))) (madeList
      ((List.range' g.size (pairLists (names.zip held)).length).map .object))
    refine heldBy_madeList (Graph.get?_add_size _ _) (.of_extends list ?_)
    exact allHeldBy_pairLists texts length (all.of_extends (extends_added _ _)) (forall₂_added _ _)
  · obtain ⟨payloads, items, packed⟩ := payload.exists_items
    obtain ⟨found, pairs, length', back⟩ := exists_pairs texts length all sized packed
    have distinct : ((names.zip found).map Prod.fst).Pairwise fun a b => a.same b = false := by
      have distinct := table.even.distinct
      rwa [List.map_fst_zip length.le, ← List.map_fst_zip length'.le] at distinct
    have sizes := all.sized sized back
    obtain ⟨ref, columns', last, ran, ext, le, table'⟩ := readTable_run items pairs
      (fun pair mem => sizes _ (List.of_mem_zip mem).2) distinct
    exact ⟨ref, last, ran, ext, le, texts, rows, columns', found, table', length',
      back.of_extends ext⟩

end Datum

end Marshal
