import Marshal.Proofs.Forall2
import Marshal.Proofs.Table.Check

namespace Marshal.Table

open Marshal.Action
open Marshal.Effect

variable {g h k : Graph} {v payload column : Value} {pair : Value × Value} {columns : List Value}
  {pairs : List (Value × Value)}

/-- Names and values that a table can have. -/
structure Fits (g : Graph) (pairs : List (Value × Value)) : Prop where
  distinct : (pairs.map Prod.fst).Nodup
  even : ∃ rows, ∀ pair ∈ pairs, HasRows g rows pair.2

theorem Spells.unique {pair' : Value × Value} (left : Spells g payload pair)
    (right : Spells g payload pair') : pair = pair' := by
  have same := left.items.symm.trans right.items
  simp only [Option.some.injEq, List.cons.injEq, and_true] at same
  exact Prod.ext same.1 same.2

theorem SpellsAll.unique {pairs' : List (Value × Value)} (left : SpellsAll g payload pairs)
    (right : SpellsAll g payload pairs') : pairs = pairs' := by
  obtain ⟨payloads, items, all⟩ := left
  obtain ⟨payloads', items', all'⟩ := right
  obtain rfl : payloads = payloads' :=
    List.map_injective_iff.2 (Option.some_injective _)
      (Option.some.inj (items.symm.trans items'))
  exact List.right_unique_forall₂' (fun _ _ _ left right => left.unique right) all all'

section Columns

theorem exists_readColumn_run_iff :
    (∃ column k, (readColumn payload).run g = (.ok column, k)) ↔ ∃ pair, Spells g payload pair := by
  constructor
  · rintro ⟨column, k, ran⟩
    obtain ⟨pair, spells, -⟩ := readColumn_eq_ok ran
    exact ⟨pair, spells⟩
  · rintro ⟨pair, spells⟩
    exact ⟨_, _, spells.readColumn_run⟩

theorem spells_madeList (found : g.objectOf? payload = some (madeList [pair.1, pair.2]))
    (text : pair.1.text?.isSome = true) (holds : holdsValues g pair.2 = true) :
    Spells g payload pair :=
  ⟨items?_of_hasItems (hasItems_of_madeList found), text, holds⟩

/-- A column with a text for a name and a list or number array for values. -/
structure IsProper (g : Graph) (column : Value) (pair : Value × Value) : Prop where
  object : g.objectOf? column = some (columnObject pair.1 pair.2)
  text : pair.1.text?.isSome = true
  holds : holdsValues g pair.2 = true

theorem IsProper.exists_writeColumn_run (proper : IsProper g column pair) :
    ∃ payload k, (writeColumn column).run g = (.ok payload, k) ∧ g.Extends k ∧
      Spells k payload pair := by
  obtain ⟨object, text, holds⟩ := proper
  have ext := Graph.extends_add g (madeList [pair.1, pair.2])
  exact ⟨_, _, writeColumn_run object, ext,
    spells_madeList (Graph.get?_add_size _ _) text (holdsValues_of_extends ext holds)⟩

theorem Spells.isProper (spells : Spells g payload pair) :
    IsProper (g.add (columnObject pair.1 pair.2)) (.object g.size) pair :=
  ⟨Graph.get?_add_size _ _, spells.text,
    holdsValues_of_extends (Graph.extends_add _ _) spells.holds⟩

end Columns

section Tables

def SameHeld (g h : Graph) : Prop :=
  ∀ v, h.items? v = g.items? v ∧ holdsValues h v = holdsValues g v

theorem sameHeld_add (g : Graph) (name values : Value) :
    SameHeld g (g.add (columnObject name values)) := by
  intro v
  cases v with
  | object ref =>
    rw [Graph.items?, Graph.items?, holdsValues, holdsValues, Graph.objectOf?_object,
      Graph.objectOf?_object]
    by_cases old : ref < g.size
    · rw [Graph.get?_add_of_lt _ _ old]
      exact ⟨rfl, rfl⟩
    · have absent : g.get? ref = none := by
        rw [Option.eq_none_iff_forall_ne_some]
        exact fun o found => old (Graph.lt_size_of_get? found)
      cases found : (g.add (columnObject name values)).get? ref with
      | none =>
        rw [absent]
        exact ⟨rfl, rfl⟩
      | some o =>
        -- what is new is the column
        have inside := Graph.lt_size_of_get? found
        rw [Graph.size_add] at inside
        obtain rfl : ref = g.size :=
          Nat.le_antisymm (Nat.le_of_lt_succ inside) (Nat.le_of_not_lt old)
        rw [Graph.get?_add_size, Option.some.injEq] at found
        rw [absent, ← found]
        exact ⟨rfl, rfl⟩
  | _ => exact ⟨rfl, rfl⟩

theorem SameHeld.trans (left : SameHeld g h) (right : SameHeld h k) : SameHeld g k :=
  fun v => ⟨(right v).1.trans (left v).1, (right v).2.trans (left v).2⟩

theorem Spells.of_sameHeld (same : SameHeld g h) (spells : Spells h payload pair) :
    Spells g payload pair :=
  ⟨(same payload).1 ▸ spells.items, spells.text, (same pair.2).2 ▸ spells.holds⟩

def readItem : Option Value → Action Value
  | some payload => readColumn payload
  | none => pure .undefined

/-- What an item of the list is read as. -/
def ReadAs (g k : Graph) (item : Option Value) (column : Value) : Prop :=
  item = none ∧ column = .undefined ∨ ∃ payload pair, item = some payload ∧
    Spells g payload pair ∧ k.objectOf? column = some (columnObject pair.1 pair.2)

theorem ReadAs.of_extends {item : Option Value} (ext : h.Extends k)
    (read : ReadAs g h item column) : ReadAs g k item column :=
  read.imp_right fun ⟨payload, pair, same, spells, found⟩ =>
    ⟨payload, pair, same, spells, ext.objectOf? found⟩

theorem readItem_ok {item : Option Value} (same : SameHeld g h)
    (ran : (readItem item).run h = (.ok column, k)) :
    h.Extends k ∧ SameHeld g k ∧ ReadAs g k item column := by
  cases item with
  | none =>
    cases ran
    exact ⟨.refl _, same, .inl ⟨rfl, rfl⟩⟩
  | some payload =>
    obtain ⟨pair, spells, rfl, rfl⟩ := readColumn_eq_ok ran
    exact ⟨Graph.extends_add _ _, same.trans (sameHeld_add h pair.1 pair.2),
      .inr ⟨payload, pair, rfl, spells.of_sameHeld same, Graph.get?_add_size _ _⟩⟩

theorem mapM_readItem_ok {items : List (Option Value)} (same : SameHeld g h)
    (ran : (items.mapM readItem).run h = (.ok columns, k)) :
    h.Extends k ∧ List.Forall₂ (ReadAs g k) items columns := by
  induction items generalizing h columns with
  | nil =>
    cases ran
    exact ⟨.refl _, .nil⟩
  | cons item rest ih =>
    rw [List.mapM_cons] at ran
    obtain ⟨column, middle, first, ran⟩ := run_bind_eq_ok.1 ran
    obtain ⟨columns, last, others, ran⟩ := run_bind_eq_ok.1 ran
    cases ran
    obtain ⟨ext, same, read⟩ := readItem_ok same first
    obtain ⟨ext', all⟩ := ih same others
    exact ⟨ext.trans ext', .cons (read.of_extends ext') all⟩

theorem exists_payloads {R : Value → Value × Value → Prop} {items : List (Option Value)}
    (all : List.Forall₂ (fun item pair => ∃ payload, item = some payload ∧ R payload pair) items
      pairs) :
    ∃ payloads, items = payloads.map some ∧ List.Forall₂ R payloads pairs := by
  induction all with
  | nil => exact ⟨[], rfl, .nil⟩
  | cons first _ ih =>
    obtain ⟨payload, rfl, related⟩ := first
    obtain ⟨payloads, rfl, all⟩ := ih
    exact ⟨payload :: payloads, rfl, .cons related all⟩

theorem SpellsAll.of_mem (spells : SpellsAll g payload pairs) (mem : pair ∈ pairs) :
    pair.1.text?.isSome = true ∧ holdsValues g pair.2 = true := by
  obtain ⟨payloads, -, all⟩ := spells
  obtain ⟨payload, -, here⟩ := exists_of_forall₂_right all mem
  exact ⟨here.text, here.holds⟩

theorem HasRows.of_holds {rows : Value} (ext : g.Extends k) (holds : holdsValues g v = true)
    (later : HasRows k rows v) : HasRows g rows v := by
  obtain ⟨n, length⟩ := exists_length? holds
  obtain ⟨n', length', equal⟩ := later
  cases (length?_of_extends ext length).symm.trans length'
  exact ⟨n, length, equal⟩

theorem pairwise_names_iff_nodup (texts : ∀ pair ∈ pairs, pair.1.text?.isSome = true) :
    ((pairs.map Prod.fst).Pairwise fun a b => a.same b = false) ↔ (pairs.map Prod.fst).Nodup :=
  Value.pairwise_same_iff_nodup (List.forall_mem_map.2 texts)

theorem readTable_eq_ok (ran : (readTable payload).run g = (.ok v, k)) :
    g.Extends k ∧ ∃ columns pairs, SpellsAll g payload pairs ∧ Fits g pairs ∧
      Lists k v columns pairs := by
  rw [readTable] at ran
  obtain ⟨_, _, ⟨⟩, ran⟩ := run_bind_eq_ok.1 ran
  split at ran
  next items found =>
    obtain ⟨columns, middle, read, ran⟩ := run_bind_eq_ok.1 ran
    obtain ⟨ext, all⟩ := mapM_readItem_ok (fun _ => ⟨rfl, rfl⟩) read
    have made : ∀ column ∈ columns, Made middle column := by
      intro column mem
      obtain ⟨item, -, ⟨-, rfl⟩ | ⟨_, pair, -, -, object⟩⟩ := exists_of_forall₂_right all mem
      · exact .inl rfl
      · exact .inr ⟨pair.1, pair.2, object⟩
    obtain ⟨rfl, pairs, rows, tabulates, even⟩ := build_ok made ran
    have ext' := extends_built middle columns
    have spelled : List.Forall₂ (fun item pair => ∃ payload, item = some payload ∧
        Spells g payload pair) items pairs := by
      refine (forall₂_comp all tabulates.objects).imp ?_
      rintro item ⟨name, values⟩ ⟨column, ⟨-, rfl⟩ | ⟨payload, pair, same, spells, object⟩, object'⟩
      · cases object'
      · cases (ext'.objectOf? object).symm.trans object'
        exact ⟨payload, same, spells⟩
    obtain ⟨payloads, rfl, spells⟩ := exists_payloads spelled
    have all : SpellsAll g payload pairs := ⟨payloads, found, spells⟩
    refine ⟨ext.trans ext', columns, pairs, all, ⟨?_, rows, fun pair mem => ?_⟩, tabulates.lists⟩
    · exact (pairwise_names_iff_nodup fun pair mem => (all.of_mem mem).1).1 tabulates.distinct
    · have holds := (all.of_mem mem).2
      exact .of_holds (ext.trans ext') holds (even pair mem (holdsValues_of_extends ext holds))
  next => cases ran

theorem SpellsAll.exists_readTable_run (spells : SpellsAll g payload pairs) (fits : Fits g pairs) :
    ∃ table columns k, (readTable payload).run g = (.ok table, k) ∧ g.Extends k ∧
      Lists k table columns pairs := by
  obtain ⟨rows, even⟩ := fits.even
  obtain ⟨table, k, ran, ext, -, lists⟩ := exists_build_run
    ((pairwise_names_iff_nodup fun pair mem => (spells.of_mem mem).1).2 fits.distinct) even
  exact ⟨_, _, k, spells.readTable_run_eq.trans ran, ext, lists⟩

theorem exists_readTable_run_iff :
    (∃ table k, (readTable payload).run g = (.ok table, k)) ↔
      ∃ pairs, SpellsAll g payload pairs ∧ Fits g pairs := by
  constructor
  · rintro ⟨table, k, ran⟩
    obtain ⟨-, columns, pairs, spells, fits, -⟩ := readTable_eq_ok ran
    exact ⟨pairs, spells, fits⟩
  · rintro ⟨pairs, spells, fits⟩
    obtain ⟨table, columns, k, ran, -⟩ := spells.exists_readTable_run fits
    exact ⟨table, k, ran⟩

theorem Lists.exists_writeTable_run {table : Value} (lists : Lists g table columns pairs)
    (proper : ∀ pair ∈ pairs, pair.1.text?.isSome = true ∧ holdsValues g pair.2 = true) :
    ∃ payload k, (writeTable table).run g = (.ok payload, k) ∧ g.Extends k ∧
      SpellsAll k payload pairs := by
  have ext := extends_added g (pairLists pairs)
  have list := Graph.extends_add (added g (pairLists pairs))
    (madeList ((List.range' g.size (pairLists pairs).length).map .object))
  refine ⟨_, _, lists.writeTable_run, ext.trans list, _,
    items?_of_hasItems (hasItems_of_madeList (Graph.get?_add_size _ _)), ?_⟩
  have objects := forall₂_added g (pairLists pairs)
  rw [pairLists, List.forall₂_map_right_iff] at objects
  refine List.forall₂_iff_zip.2 ⟨objects.length_eq, fun mem => ?_⟩
  obtain ⟨text, holds⟩ := proper _ (List.of_mem_zip mem).2
  exact spells_madeList (list.objectOf? (List.forall₂_zip objects mem)) text
    (holdsValues_of_extends (ext.trans list) holds)

theorem build_proper_ok {table : Value}
    (proper : ∀ column ∈ columns, ∃ pair, IsProper g column pair)
    (ran : (build columns).run g = (.ok table, k)) :
    ∃ pairs, Lists k table columns pairs ∧ Fits k pairs ∧
      ∀ pair ∈ pairs, pair.1.text?.isSome = true ∧ holdsValues k pair.2 = true := by
  have typed : ∀ column ∈ columns, HasValues g column := by
    intro column mem
    obtain ⟨pair, here⟩ := proper column mem
    exact ⟨pair.1, pair.2, here.object, here.holds⟩
  obtain ⟨ext, pairs, rows, lists, distinct, even⟩ := build_typed_ok typed ran
  have held : ∀ pair ∈ pairs, pair.1.text?.isSome = true ∧ holdsValues k pair.2 = true := by
    rintro ⟨name, values⟩ mem
    obtain ⟨column, mem', object⟩ := exists_of_forall₂_right lists.objects mem
    obtain ⟨pair, here⟩ := proper column mem'
    cases (ext.objectOf? here.object).symm.trans object
    exact ⟨here.text, holdsValues_of_extends ext here.holds⟩
  exact ⟨pairs, lists, ⟨(pairwise_names_iff_nodup fun pair mem => (held pair mem).1).1 distinct,
    rows, even⟩, held⟩

end Tables

theorem Fits.of_extends (ext : g.Extends k) (fits : Fits g pairs) : Fits k pairs :=
  ⟨fits.distinct, fits.even.imp fun _ even pair mem => (even pair mem).of_extends ext⟩

/-- What is read as a column or as a table is exactly what columns and tables are written as:
whatever is read is written again as it was, and whatever is written is read again as it was. -/
theorem payload_codec (g : Graph) (payload : Value) :
    ((∃ column k, (readColumn payload).run g = (.ok column, k)) ↔
        ∃ pair, Spells g payload pair) ∧
      ((∃ table k, (readTable payload).run g = (.ok table, k)) ↔
        ∃ pairs, SpellsAll g payload pairs ∧ Fits g pairs) ∧
      (∀ column k, (readColumn payload).run g = (.ok column, k) →
        ∃ pair written last, Spells g payload pair ∧
          (writeColumn column).run k = (.ok written, last) ∧ g.Extends last ∧
          Spells last written pair) ∧
      (∀ table k, (readTable payload).run g = (.ok table, k) →
        ∃ pairs written last, SpellsAll g payload pairs ∧
          (writeTable table).run k = (.ok written, last) ∧ g.Extends last ∧
          SpellsAll last written pairs) ∧
      (∀ column pair, IsProper g column pair →
        ∃ written k, (writeColumn column).run g = (.ok written, k) ∧ g.Extends k ∧
          ∀ h, k.Extends h → ∃ column' last,
            (readColumn written).run h = (.ok column', last) ∧ IsProper last column' pair) ∧
      ∀ columns table k, (∀ column ∈ columns, ∃ pair, IsProper g column pair) →
        (build columns).run g = (.ok table, k) →
          ∃ pairs written k', Lists k table columns pairs ∧
            (writeTable table).run k = (.ok written, k') ∧ k.Extends k' ∧
            ∀ h, k'.Extends h → ∃ table' columns' last,
              (readTable written).run h = (.ok table', last) ∧
                Lists last table' columns' pairs := by
  refine ⟨exists_readColumn_run_iff, exists_readTable_run_iff, fun column k ran => ?_,
    fun table k ran => ?_, fun column pair proper => ?_, fun columns table k proper ran => ?_⟩
  · obtain ⟨pair, spells, rfl, rfl⟩ := readColumn_eq_ok ran
    obtain ⟨written, last, ran', ext, again⟩ := spells.isProper.exists_writeColumn_run
    exact ⟨pair, written, last, spells, ran', (Graph.extends_add _ _).trans ext, again⟩
  · obtain ⟨ext, columns, pairs, spells, -, lists⟩ := readTable_eq_ok ran
    obtain ⟨written, last, ran', ext', again⟩ := lists.exists_writeTable_run fun pair mem =>
      ⟨(spells.of_mem mem).1, holdsValues_of_extends ext (spells.of_mem mem).2⟩
    exact ⟨pairs, written, last, spells, ran', ext.trans ext', again⟩
  · obtain ⟨written, k, ran, ext, spells⟩ := proper.exists_writeColumn_run
    refine ⟨written, k, ran, ext, fun h later => ?_⟩
    have spelled := spells.of_extends later
    exact ⟨_, _, spelled.readColumn_run, spelled.isProper⟩
  · obtain ⟨pairs, lists, fits, held⟩ := build_proper_ok proper ran
    obtain ⟨written, k', ran', ext, spells⟩ := lists.exists_writeTable_run held
    refine ⟨pairs, written, k', lists, ran', ext, fun h later => ?_⟩
    obtain ⟨table', columns', last, read, -, lists'⟩ :=
      (spells.of_extends later).exists_readTable_run (fits.of_extends (ext.trans later))
    exact ⟨table', columns', last, read, lists'⟩

namespace Sample

def payloads : Graph :=
  ⟨#[{ kind := some (.numbers .int8), body := .numbers .int8 ⟨#[1, 2]⟩ },
    madeList [.nat 1, .nat 2], { kind := some .dataView, body := .view ⟨#[1, 2]⟩ },
    madeList [.string "a", .object 0], madeList [.string "b", .object 1],
    madeList [.string "c", .object 2], madeList [.object 3, .object 4],
    madeList [.object 3, .object 3], madeList [.object 3, .object 5]]⟩

/-- The bytes and the numbers are read as a table, which is written as they were. The same name
twice is no table, and neither is a view. -/
theorem payloads_read_and_written :
    (∃ table k written last, (readTable (.object 6)).run payloads = (.ok table, k) ∧
        (writeTable table).run k = (.ok written, last) ∧
        SpellsAll last written [(.string "a", .object 0), (.string "b", .object 1)]) ∧
      (¬ ∃ table k, (readTable (.object 7)).run payloads = (.ok table, k)) ∧
      ¬ ∃ table k, (readTable (.object 8)).run payloads = (.ok table, k) := by
  have first : Spells payloads (.object 3) (.string "a", .object 0) := ⟨rfl, rfl, rfl⟩
  have second : Spells payloads (.object 4) (.string "b", .object 1) := ⟨rfl, rfl, rfl⟩
  have spells : SpellsAll payloads (.object 6)
      [(.string "a", .object 0), (.string "b", .object 1)] :=
    ⟨[.object 3, .object 4], rfl, .cons first (.cons second .nil)⟩
  have even : ∀ pair ∈ [(Value.string "a", Value.object 0), (.string "b", .object 1)],
      HasRows payloads (.nat 2) pair.2 := by
    simp only [List.forall_mem_cons, List.not_mem_nil, false_implies, implies_true, and_true]
    exact ⟨⟨.nat 2, rfl, Number.equals_ofNat 2⟩, ⟨.nat 2, rfl, Number.equals_ofNat 2⟩⟩
  obtain ⟨-, accepts, -, writes, -⟩ := payload_codec payloads (.object 6)
  obtain ⟨-, repeated, -⟩ := payload_codec payloads (.object 7)
  obtain ⟨-, viewed, -⟩ := payload_codec payloads (.object 8)
  refine ⟨?_, mt repeated.1 ?_, mt viewed.1 ?_⟩
  · obtain ⟨table, k, ran⟩ := accepts.2 ⟨_, spells, by decide, .nat 2, even⟩
    obtain ⟨pairs, written, last, spells', ran', -, again⟩ := writes table k ran
    exact ⟨table, k, written, last, ran, ran', spells.unique spells' ▸ again⟩
  · rintro ⟨pairs, twice, fits⟩
    have known : SpellsAll payloads (.object 7)
        [(.string "a", .object 0), (.string "a", .object 0)] :=
      ⟨[.object 3, .object 3], rfl, .cons first (.cons first .nil)⟩
    obtain rfl := known.unique twice
    exact absurd fits.distinct (by decide)
  · rintro ⟨pairs, ⟨items, found, all⟩, -⟩
    obtain rfl : [.object 3, .object 5] = items :=
      List.map_injective_iff.2 (Option.some_injective _) (Option.some.inj found)
    cases all with
    | cons _ rest =>
      cases rest with
      | @cons _ pair _ _ view _ =>
        have items : some [some (Value.string "c"), some (.object 2)] =
            some [some pair.1, some pair.2] := view.items
        simp only [Option.some.injEq, List.cons.injEq, and_true] at items
        have holds := view.holds
        rw [← items.2] at holds
        cases holds

end Sample

end Marshal.Table
