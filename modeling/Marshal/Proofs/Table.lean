import Marshal.Proofs.Describe
import Marshal.Proofs.Tree
import Marshal.Proofs.Value
import Marshal.Table

namespace Marshal.Action

theorem HasItems.of_extends {g k : Graph} (ext : g.Extends k) {v : Value} {items : List Value}
    (h : HasItems g v items) : HasItems k v items := by
  obtain ⟨o, found, bare, list⟩ := h
  exact ⟨o, ext.objectOf? found, bare, list⟩

end Marshal.Action

namespace Marshal.Table

open Marshal.Action
open Marshal.Effect

def columnObject (name values : Value) : Object :=
  { kind := some .column, fields := [("name", name), ("values", values)] }

def tableObject (list : Value) : Object :=
  { kind := some .table, fields := [("columns", list)] }

/-- The length of a value that says it at once. -/
def length? (g : Graph) (v : Value) : Option Value :=
  (g.objectOf? v).bind fun o => o.entries.lookup "length" <|> o.hidden? "length"

def HasRows (g : Graph) (rows v : Value) : Prop :=
  ∃ n, length? g v = some n ∧ n.equals rows = true

section Lengths

variable {g k : Graph} {v name values n : Value}

theorem length?_of_extends (ext : g.Extends k) (h : length? g v = some n) :
    length? k v = some n := by
  obtain ⟨o, found, length⟩ := Option.bind_eq_some_iff.1 h
  rw [length?, ext.objectOf? found]
  exact length

theorem HasRows.of_extends {rows : Value} (ext : g.Extends k) (h : HasRows g rows v) :
    HasRows k rows v := by
  obtain ⟨n, length, equal⟩ := h
  exact ⟨n, length?_of_extends ext length, equal⟩

theorem length?_run (h : length? g v = some n) (fuel : Nat) :
    (propertyWith (fuel + 1) v "length").run g = (.ok n, g) := by
  obtain ⟨o, found, length⟩ := Option.bind_eq_some_iff.1 h
  exact propertyWith_run found length fuel

theorem name_run (object : g.objectOf? v = some (columnObject name values)) :
    (property v "name").run g = (.ok name, g) := property_run object rfl

theorem length_run (object : g.objectOf? v = some (columnObject name values))
    (length : length? g values = some n) : (property v "length").run g = (.ok n, g) := by
  cases v with
  | object ref =>
    have inner : (propertyWith (g.size + 1) (.object ref) "values").run g = (.ok values, g) :=
      propertyWith_run object rfl g.size
    rw [property, run_bind, run_get]
    dsimp only
    rw [propertyWith, run_bind, objectOf?_run, object]
    change ((propertyWith (g.size + 1) (.object ref) "values" >>= fun values =>
      propertyWith (g.size + 1) values "length")).run g = _
    rw [run_bind, inner]
    exact length?_run length g.size
  | _ => cases object

end Lengths

/-- A value that gives its length without a computation of its class. -/
def Sized (g : Graph) (v : Value) (n : Nat) : Prop :=
  ∃ o, g.objectOf? v = some o ∧ o.fields = [] ∧ o.hidden? "length" = some (.nat n)

theorem items?_of_hasItems {g : Graph} {v : Value} {items : List Value} (h : HasItems g v items) :
    g.items? v = some (items.map some) := by
  obtain ⟨o, found, -, list⟩ := h
  rw [Graph.items?, found, Option.map_some, list]

/-- A column of a name and values, of which there are so many. -/
structure IsColumn (g : Graph) (rows : Nat) (column : Value) (held : Value × Value) : Prop where
  object : g.objectOf? column = some (columnObject held.1 held.2)
  sized : Sized g held.2 rows

theorem Sized.of_extends {g k : Graph} (ext : g.Extends k) {v : Value} {n : Nat}
    (h : Sized g v n) : Sized k v n := by
  obtain ⟨o, found, bare, length⟩ := h
  exact ⟨o, ext.objectOf? found, bare, length⟩

theorem IsColumn.of_extends {g k : Graph} (ext : g.Extends k) {rows : Nat} {column : Value}
    {held : Value × Value} (h : IsColumn g rows column held) : IsColumn k rows column held :=
  ⟨ext.objectOf? h.object, h.sized.of_extends ext⟩

theorem Sized.hasRows {g : Graph} {v : Value} {rows : Nat} (h : Sized g v rows) :
    HasRows g (.nat rows) v := by
  obtain ⟨o, found, bare, length⟩ := h
  refine ⟨.nat rows, ?_, Number.equals_ofNat rows⟩
  rw [length?, found, Option.bind_some]
  exact lookup_or_hidden bare (by decide) length

theorem check_cons_run {g : Graph} {first column name rows expected : Value}
    {seen rest : List Value} (named : (property column "name").run g = (.ok name, g))
    (length : (property column "length").run g = (.ok rows, g))
    (lead : (property first "length").run g = (.ok expected, g)) :
    (check first seen (column :: rest)).run g =
      if seen.any (·.same name) then (do throw (duplicateName (← text name)) : Action Unit).run g
      else if rows.equals expected then (check first (name :: seen) rest).run g
      else (do throw (unevenColumn (← text name) (← text rows) (← text expected)) :
        Action Unit).run g := by
  rw [check, run_bind, named]
  dsimp only
  split
  next =>
    rw [run_bind, run_bind]
    cases ((text name).run g).1 <;> rfl
  next =>
    rw [run_bind, length]
    dsimp only
    rw [run_bind, lead]
    dsimp only
    cases rows.equals expected <;> rfl

/-- A column of a name that is as long as expected. -/
structure Passes (g : Graph) (expected column name : Value) : Prop where
  name_run : (property column "name").run g = (.ok name, g)
  exists_length : ∃ n, (property column "length").run g = (.ok n, g) ∧ n.equals expected = true

theorem check_run {g : Graph} {first expected : Value}
    (lead : (property first "length").run g = (.ok expected, g)) {columns names : List Value}
    (all : List.Forall₂ (Passes g expected) columns names) {seen : List Value}
    (distinct : names.Pairwise fun a b => a.same b = false)
    (other : ∀ n ∈ seen, ∀ name ∈ names, n.same name = false) :
    (check first seen columns).run g = (.ok (), g) := by
  -- the names that were seen are those of the columns before
  induction all generalizing seen with
  | nil => rfl
  | @cons column name columns names h _ ih =>
    obtain ⟨apart, distinct⟩ := List.pairwise_cons.1 distinct
    obtain ⟨n, length, equal⟩ := h.exists_length
    have unseen : seen.any (·.same name) = false := by
      rw [List.any_eq_false]
      intro n mem same
      rw [other n mem name List.mem_cons_self] at same
      cases same
    rw [check_cons_run h.name_run length lead, unseen, if_neg Bool.false_ne_true, equal, if_pos rfl]
    refine ih distinct ?_
    intro n mem name' mem'
    rcases List.mem_cons.1 mem with rfl | mem
    · exact apart name' mem'
    · exact other n mem name' (List.mem_cons_of_mem _ mem')

def built (g : Graph) (columns : List Value) : Graph :=
  (g.add (madeList columns)).add (tableObject (.object g.size))

theorem extends_built (g : Graph) (columns : List Value) : g.Extends (built g columns) :=
  (Graph.extends_add _ _).trans (Graph.extends_add _ _)

theorem build_run_of_check {g : Graph} {columns : List Value}
    (checked : (check (columns.head?.getD .undefined) [] columns).run g = (.ok (), g)) :
    (build columns).run g = (.ok (.object (g.size + 1)), built g columns) := by
  rw [build, run_bind, checked]
  dsimp only
  rw [run_bind, newList_run]
  dsimp only
  rw [add_run, Graph.size_add]
  rfl

section Regular

variable {g : Graph} {rows : Value} {columns : List Value} {pairs : List (Value × Value)}

/-- Columns of these names and values, as a table can have them. -/
structure Regular (g : Graph) (rows : Value) (columns : List Value) (pairs : List (Value × Value)) :
    Prop where
  objects : List.Forall₂ (fun column (pair : Value × Value) =>
    g.objectOf? column = some (columnObject pair.1 pair.2)) columns pairs
  distinct : (pairs.map Prod.fst).Pairwise fun a b => a.same b = false
  even : ∀ pair ∈ pairs, HasRows g rows pair.2

theorem Regular.build_run (h : Regular g rows columns pairs) :
    (build columns).run g = (.ok (.object (g.size + 1)), built g columns) := by
  obtain ⟨objects, distinct, even⟩ := h
  refine build_run_of_check ?_
  have passes : ∀ expected, expected.equals rows = true → List.Forall₂ (Passes g expected) columns
      (pairs.map Prod.fst) := by
    intro expected equal
    refine List.forall₂_map_right_iff.2 (List.forall₂_iff_zip.2 ⟨objects.length_eq, fun mem => ?_⟩)
    have found := List.forall₂_zip objects mem
    obtain ⟨n, length, equal'⟩ := even _ (List.of_mem_zip mem).2
    exact ⟨name_run found, n, length_run found length, Value.equals_of_equals equal' equal⟩
  cases objects with
  | nil => rfl
  | @cons column pair _ _ found _ =>
    obtain ⟨expected, lead, equal⟩ := even pair List.mem_cons_self
    exact check_run (length_run found lead) (passes expected equal) distinct
      fun _ mem => absurd mem List.not_mem_nil

end Regular

/-- Columns that pass the checks of a table. -/
structure Even (g : Graph) (rows : Nat) (columns : List Value) (pairs : List (Value × Value)) :
    Prop where
  all : List.Forall₂ (IsColumn g rows) columns pairs
  distinct : (pairs.map Prod.fst).Pairwise fun a b => a.same b = false

theorem Even.of_extends {g k : Graph} (ext : g.Extends k) {rows : Nat} {columns : List Value}
    {pairs : List (Value × Value)} (h : Even g rows columns pairs) : Even k rows columns pairs :=
  ⟨h.all.imp fun _ _ column => column.of_extends ext, h.distinct⟩

theorem Even.sized {g : Graph} {rows : Nat} {columns names values : List Value}
    (h : Even g rows columns (names.zip values)) (length : names.length = values.length) :
    ∀ v ∈ values, Sized g v rows := by
  intro v mem
  obtain ⟨i, inside, rfl⟩ := List.getElem_of_mem mem
  have bound : i < (names.zip values).length := by
    rw [List.length_zip, length, Nat.min_self]
    exact inside
  have column := h.all.get (h.all.length_eq ▸ bound) bound
  rw [List.get_eq_getElem, List.get_eq_getElem, List.getElem_zip] at column
  exact column.sized

structure IsTable (g : Graph) (rows : Nat) (table : Value) (columns : List Value)
    (pairs : List (Value × Value)) : Prop where
  exists_list : ∃ list, g.objectOf? table = some (tableObject list) ∧
    g.objectOf? list = some (madeList columns)
  even : Even g rows columns pairs

theorem IsTable.of_extends {g k : Graph} (ext : g.Extends k) {rows : Nat} {table : Value}
    {columns : List Value} {pairs : List (Value × Value)} (h : IsTable g rows table columns pairs) :
    IsTable k rows table columns pairs := by
  obtain ⟨⟨list, object, items⟩, even⟩ := h
  exact ⟨⟨list, ext.objectOf? object, ext.objectOf? items⟩, even.of_extends ext⟩

/-- A table with a list of columns that have these names and values. -/
structure Lists (g : Graph) (table : Value) (columns : List Value) (pairs : List (Value × Value)) :
    Prop where
  exists_list : ∃ list, g.objectOf? table = some (tableObject list) ∧
    g.objectOf? list = some (madeList columns)
  objects : List.Forall₂ (fun column (pair : Value × Value) =>
    g.objectOf? column = some (columnObject pair.1 pair.2)) columns pairs

theorem IsTable.lists {g : Graph} {rows : Nat} {table : Value} {columns : List Value}
    {pairs : List (Value × Value)} (h : IsTable g rows table columns pairs) :
    Lists g table columns pairs :=
  ⟨h.exists_list, h.even.all.imp fun _ _ column => column.object⟩

namespace Lists

variable {g k : Graph} {table : Value} {columns : List Value} {pairs : List (Value × Value)}

theorem of_extends (ext : g.Extends k) (h : Lists g table columns pairs) :
    Lists k table columns pairs := by
  obtain ⟨⟨list, object, items⟩, objects⟩ := h
  exact ⟨⟨list, ext.objectOf? object, ext.objectOf? items⟩,
    objects.imp fun _ _ found => ext.objectOf? found⟩

theorem columnNames_run (h : Lists g table columns pairs) :
    (columnNames table).run g =
      (.ok (.object g.size), g.add (madeList (pairs.map Prod.fst))) := by
  obtain ⟨⟨list, object, items⟩, objects⟩ := h
  have listed : (propertyWith (g.size + 1) table "columns").run g = (.ok list, g) :=
    propertyWith_run object rfl g.size
  cases table with
  | object ref =>
    rw [columnNames, property, run_bind, run_get]
    dsimp only
    rw [propertyWith, run_bind, objectOf?_run, object]
    change ((propertyWith (g.size + 1) (.object ref) "columns" >>= _ : Action Value)).run g = _
    rw [run_bind, listed]
    dsimp only
    rw [run_bind, objectOf?_run, items]
    change (((columns.map some).mapM _ >>= _ : Action Value)).run g = _
    rw [run_bind, mapM_run_of_forall₂ (r := fun pair : Value × Value => some pair.1)
      (List.forall₂_map_left_iff.2 (objects.imp ?_))]
    · have names : pairs.map (fun pair => some pair.1) = (pairs.map Prod.fst).map some := by
        rw [List.map_map]
        rfl
      rw [names]
      rfl
    · intro column pair found
      change (some <$> propertyWith (g.size + 1) column "name").run g = _
      rw [← bind_pure_comp, run_bind, propertyWith_run found rfl g.size]
      rfl
  | _ => cases object

theorem columnItems_run (h : Lists g table columns pairs) :
    (columnItems table).run g = (.ok (columns.map some), g) := by
  obtain ⟨list, object, items⟩ := h.exists_list
  rw [columnItems, run_bind, property_run object rfl]
  dsimp only
  have found : g.items? list = some (columns.map some) := by
    rw [Graph.items?, items]
    rfl
  rw [run_bind, run_get]
  dsimp only
  rw [found]
  rfl

theorem toStructure_run (h : Lists g table columns pairs) :
    (toStructure table).run g =
      (.ok [.object g.size, .object (g.size + 1)],
        (g.add (madeList (pairs.map Prod.fst))).add (madeList (pairs.map Prod.snd))) := by
  have ext := Graph.extends_add g (madeList (pairs.map Prod.fst))
  rw [toStructure, run_bind, h.columnNames_run]
  dsimp only
  rw [run_bind, (h.of_extends ext).columnItems_run]
  dsimp only
  rw [run_bind, mapM_run_of_forall₂ (r := fun pair : Value × Value => some pair.2)
    (List.forall₂_map_left_iff.2 (h.objects.imp ?_))]
  · have values : pairs.map (fun pair => some pair.2) = (pairs.map Prod.snd).map some := by
      rw [List.map_map]
      rfl
    rw [values]
    dsimp only
    rw [run_bind, add_run]
    dsimp only
    rw [Graph.size_add]
    rfl
  · intro column pair found
    change (some <$> property column "values").run _ = _
    rw [← bind_pure_comp, run_bind, property_run (ext.objectOf? found) rfl]
    rfl

end Lists

theorem lists_built {g : Graph} {columns : List Value} {pairs : List (Value × Value)}
    (objects : List.Forall₂ (fun column (pair : Value × Value) =>
      g.objectOf? column = some (columnObject pair.1 pair.2)) columns pairs) :
    Lists (built g columns) (.object (g.size + 1)) columns pairs := by
  refine ⟨⟨.object g.size, ?_, (Graph.extends_add _ _).get?_size⟩,
    objects.imp fun _ _ found => (extends_built g columns).objectOf? found⟩
  rw [← Graph.size_add g (madeList columns)]
  exact Graph.get?_add_size _ _

theorem columnToStructure_run {g : Graph} {column name values : Value}
    (object : g.objectOf? column = some (columnObject name values)) :
    (columnToStructure column).run g = (.ok [name, values], g) := by
  rw [columnToStructure, run_bind, property_run object rfl]
  dsimp only
  rw [run_bind, property_run object rfl]
  rfl

theorem columnOfStructure_run {g : Graph} {pair name values : Value}
    (found : g.objectOf? pair = some (madeList [name, values])) :
    (columnOfStructure pair).run g = (.ok (.object g.size), g.add (columnObject name values)) := by
  rw [columnOfStructure, run_bind, iterate_madeList_run found]
  rfl

def added (g : Graph) (objects : List Object) : Graph := objects.foldl Graph.add g

theorem extends_added (g : Graph) (objects : List Object) : g.Extends (added g objects) := by
  induction objects generalizing g with
  | nil => exact .refl g
  | cons o rest ih => exact (Graph.extends_add g o).trans (ih (g.add o))

theorem forall₂_added (g : Graph) (objects : List Object) :
    List.Forall₂ (fun v o => (added g objects).objectOf? v = some o)
      ((List.range' g.size objects.length).map .object) objects := by
  induction objects generalizing g with
  | nil => exact .nil
  | cons o rest ih =>
    refine .cons ((extends_added (g.add o) rest).get?_size) ?_
    have others := ih (g.add o)
    rwa [Graph.size_add] at others

theorem mapM_add_run {α β : Type} {f : α → Action β} (r : Ref → β) {g k : Graph} {xs : List α}
    (objects : List Object)
    (all : List.Forall₂ (fun x o => ∀ k, g.Extends k → (f x).run k = (.ok (r k.size), k.add o)) xs
      objects) (ext : g.Extends k) :
    (xs.mapM f).run k = (.ok ((List.range' k.size objects.length).map r), added k objects) := by
  induction all generalizing k with
  | nil => rfl
  | @cons x o _ _ first _ ih =>
    rw [List.mapM_cons, run_bind, first k ext]
    dsimp only
    rw [run_bind, ih (ext.trans (Graph.extends_add k o)), Graph.size_add]
    rfl

def columnObjects (pairs : List (Value × Value)) : List Object :=
  pairs.map fun pair => columnObject pair.1 pair.2

def newColumns (g : Graph) (pairs : List (Value × Value)) : List Value :=
  (List.range' g.size (columnObjects pairs).length).map .object

theorem objects_newColumns (g : Graph) (pairs : List (Value × Value)) :
    List.Forall₂ (fun column (pair : Value × Value) =>
      (added g (columnObjects pairs)).objectOf? column = some (columnObject pair.1 pair.2))
      (newColumns g pairs) pairs := by
  have objects := forall₂_added g (columnObjects pairs)
  rwa [columnObjects, List.forall₂_map_right_iff] at objects

section NewColumns

variable {g : Graph} {pairs : List (Value × Value)}

theorem regular_newColumns {rows : Value}
    (distinct : (pairs.map Prod.fst).Pairwise fun a b => a.same b = false)
    (even : ∀ pair ∈ pairs, HasRows g rows pair.2) :
    Regular (added g (columnObjects pairs)) rows (newColumns g pairs) pairs :=
  ⟨objects_newColumns g pairs, distinct,
    fun pair mem => (even pair mem).of_extends (extends_added g _)⟩

theorem exists_build_run {rows : Value}
    (distinct : (pairs.map Prod.fst).Pairwise fun a b => a.same b = false)
    (even : ∀ pair ∈ pairs, HasRows g rows pair.2) :
    ∃ table k,
      (build (newColumns g pairs)).run (added g (columnObjects pairs)) = (.ok (.object table), k) ∧
        g.Extends k ∧ g.size ≤ table ∧ Lists k (.object table) (newColumns g pairs) pairs := by
  have regular := regular_newColumns distinct even
  have ext := extends_added g (columnObjects pairs)
  exact ⟨_, _, regular.build_run, ext.trans (extends_built _ _), Nat.le_succ_of_le ext.size_le,
    lists_built regular.objects⟩

theorem build_added_run {rows : Nat} (sized : ∀ pair ∈ pairs, Sized g pair.2 rows)
    (distinct : (pairs.map Prod.fst).Pairwise fun a b => a.same b = false) :
    ∃ table columns k,
      (build (newColumns g pairs)).run (added g (columnObjects pairs)) = (.ok (.object table), k) ∧
        g.Extends k ∧ g.size ≤ table ∧ IsTable k rows (.object table) columns pairs := by
  obtain ⟨table, k, ran, ext, le, lists⟩ :=
    exists_build_run distinct fun pair mem => (sized pair mem).hasRows
  refine ⟨table, _, k, ran, ext, le, lists.exists_list, ?_, distinct⟩
  refine List.forall₂_iff_zip.2 ⟨lists.objects.length_eq, fun mem => ?_⟩
  exact ⟨List.forall₂_zip lists.objects mem, (sized _ (List.of_mem_zip mem).2).of_extends ext⟩

end NewColumns

section OfStructure

variable {g : Graph} {pair namesList valuesList : Value} {slots : List (Option Value)}
  {names values : List Value}

theorem ofStructure_run_eq (found : g.items? pair = some slots)
    (first : slot (slots.map (·.getD .undefined)) 0 = namesList)
    (second : slot (slots.map (·.getD .undefined)) 1 = valuesList)
    (named : HasItems g namesList names) (held : HasItems g valuesList values) :
    (ofStructure pair).run g =
      if (Value.nat names.length).equals (.nat values.length) then
        (((names.map some).zipIdx.mapM fun (item, i) =>
          match item with
          | some name => do newColumn name (← property valuesList (toString i))
          | none => pure .undefined) >>= build : Action Value).run g
      else
        (.error (countMismatch (Number.ofNat names.length).text (Number.ofNat values.length).text),
          g) := by
  rw [ofStructure, run_bind, iterate_run_of_items found]
  dsimp only
  rw [first, second, run_bind, named.length_run]
  dsimp only
  rw [run_bind, held.length_run]
  dsimp only
  cases (Value.nat names.length).equals (.nat values.length) with
  | false =>
    rw [Bool.not_false, if_pos rfl, if_neg Bool.false_ne_true, run_bind, Value.nat,
      text_number_run]
    dsimp only
    rw [run_bind, Value.nat, text_number_run]
    rfl
  | true =>
    obtain ⟨⟨kind, fields, body⟩, object, -, list⟩ := named
    rw [Bool.not_true, if_neg Bool.false_ne_true, if_pos rfl, run_bind, objectOf?_run]
    generalize g.objectOf? namesList = looked at object ⊢
    subst object
    cases list
    rfl

theorem ofStructure_eq_build (found : g.items? pair = some slots)
    (first : slot (slots.map (·.getD .undefined)) 0 = namesList)
    (second : slot (slots.map (·.getD .undefined)) 1 = valuesList)
    (named : HasItems g namesList names) (held : HasItems g valuesList values)
    (length : names.length = values.length) :
    (ofStructure pair).run g =
      (build (newColumns g (names.zip values))).run
        (added g (columnObjects (names.zip values))) := by
  have equal : (Value.nat names.length).equals (.nat values.length) = true :=
    length ▸ Number.equals_ofNat names.length
  rw [ofStructure_run_eq found first second named held, if_pos equal, run_bind,
    mapM_add_run .object (columnObjects (names.zip values)) ?_ (.refl g)]
  · rfl
  · refine List.forall₂_iff_get.2 ⟨by simp [columnObjects, length], fun i inside inside' => ?_⟩
    have bound : i < names.length := by simpa using inside
    have bound' : i < values.length := length ▸ bound
    intro k ext
    have value : (property valuesList (toString i)).run k = (.ok values[i], k) :=
      property_index_run (held.of_extends ext) (List.getElem?_eq_getElem bound')
    simp only [List.get_eq_getElem, List.getElem_zipIdx, List.getElem_map, List.getElem_zip,
      columnObjects, Nat.zero_add]
    rw [run_bind, value]
    rfl

theorem ofStructure_mismatch_run (found : g.items? pair = some slots)
    (first : slot (slots.map (·.getD .undefined)) 0 = namesList)
    (second : slot (slots.map (·.getD .undefined)) 1 = valuesList)
    (named : HasItems g namesList names) (held : HasItems g valuesList values)
    (few : names.length < 2 ^ 53) (few' : values.length < 2 ^ 53)
    (apart : names.length ≠ values.length) :
    (ofStructure pair).run g =
      (.error (countMismatch (Number.ofNat names.length).text (Number.ofNat values.length).text),
        g) := by
  rw [ofStructure_run_eq found first second named held, if_neg]
  exact fun same => apart (Number.eq_of_equals_ofNat few few' same)

theorem ofStructure_run {rows : Nat}
    (found : g.objectOf? pair = some (madeList [namesList, valuesList]))
    (named : HasItems g namesList names) (held : HasItems g valuesList values)
    (length : names.length = values.length) (sized : ∀ v ∈ values, Sized g v rows)
    (distinct : names.Pairwise fun a b => a.same b = false) :
    ∃ table columns k, (ofStructure pair).run g = (.ok (.object table), k) ∧ g.Extends k ∧
      g.size ≤ table ∧ IsTable k rows (.object table) columns (names.zip values) := by
  have items := items?_of_hasItems (hasItems_of_madeList found)
  rw [ofStructure_eq_build items rfl rfl named held length]
  refine build_added_run (fun pair mem => sized _ (List.of_mem_zip mem).2) ?_
  rwa [List.map_fst_zip length.le]

end OfStructure

end Marshal.Table
