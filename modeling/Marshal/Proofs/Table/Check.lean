import Marshal.Proofs.Keeps
import Marshal.Proofs.Number.Whole
import Marshal.Proofs.Table.Payload

namespace Marshal.Table

open Marshal.Action
open Marshal.Effect

variable {g k : Graph} {v name values : Value}

theorem exists_length? (h : holdsValues g v = true) : ∃ n, length? g v = some n := by
  rw [holdsValues] at h
  split at h
  next items body =>
    obtain ⟨o, found, same⟩ := Option.map_eq_some_iff.1 body
    refine Option.isSome_iff_exists.1 ?_
    rw [length?, found, Option.bind_some, Object.hidden?.eq_def, same]
    cases o.entries.lookup "length" <;> rfl
  next dtype bytes body =>
    obtain ⟨o, found, same⟩ := Option.map_eq_some_iff.1 body
    refine Option.isSome_iff_exists.1 ?_
    rw [length?, found, Option.bind_some, Object.hidden?.eq_def, same]
    cases o.entries.lookup "length" <;> rfl
  next => cases h

/-- A table with a list of columns that have these names and values. No two names are the same. -/
structure Tabulates (g : Graph) (table list : Value) (columns : List Value)
    (pairs : List (Value × Value)) : Prop where
  table : g.objectOf? table = some (tableObject list)
  list : g.objectOf? list = some (madeList columns)
  objects : List.Forall₂ (fun column (pair : Value × Value) =>
    g.objectOf? column = some (columnObject pair.1 pair.2)) columns pairs
  distinct : (pairs.map Prod.fst).Pairwise fun a b => a.same b = false

/-- A table as it should be: its names are texts, and its values are lists and number arrays of one
length. -/
def IsSound (g : Graph) (table : Value) : Prop :=
  ∃ list columns pairs rows, Tabulates g table list columns pairs ∧ ∀ pair ∈ pairs,
    pair.1.text?.isSome = true ∧ holdsValues g pair.2 = true ∧ HasRows g rows pair.2

/-- A table of any names and values. Those values that are lists or number arrays, other than the
list of the columns itself, have one length. -/
def IsLoose (g : Graph) (table : Value) : Prop :=
  ∃ list columns pairs rows, Tabulates g table list columns pairs ∧ ∀ pair ∈ pairs,
    pair.2 ≠ list → holdsValues g pair.2 = true → HasRows g rows pair.2

theorem keeps_name (v : Value) : Keeps Eq (property v "name") :=
  .property lasting_eq (fun same => absurd same (by decide))

theorem keeps_length (v : Value) : Keeps Eq (property v "length") :=
  .property lasting_eq (fun same => absurd same (by decide))

/-- Nothing is known of a hole, which has no name. -/
def Made (g : Graph) (column : Value) : Prop :=
  column = .undefined ∨ ∃ name values, g.objectOf? column = some (columnObject name values)

/-- What the checks of a table say of columns that pass them. -/
structure Checked (g : Graph) (first : Value) (seen columns : List Value)
    (pairs : List (Value × Value)) : Prop where
  objects : List.Forall₂ (fun column (pair : Value × Value) =>
    g.objectOf? column = some (columnObject pair.1 pair.2)) columns pairs
  unseen : ∀ earlier ∈ seen, ∀ name ∈ pairs.map Prod.fst, earlier.same name = false
  distinct : (pairs.map Prod.fst).Pairwise fun a b => a.same b = false
  even : ∀ pair ∈ pairs, holdsValues g pair.2 = true → ∃ n rows, length? g pair.2 = some n ∧
    (property first "length").run g = (.ok rows, g) ∧ n.equals rows = true

theorem check_ok {first : Value} {seen columns : List Value} {u : Unit}
    (made : ∀ column ∈ columns, Made g column)
    (ran : (check first seen columns).run g = (.ok u, k)) :
    k = g ∧ ∃ pairs, Checked g first seen columns pairs := by
  induction columns generalizing seen with
  | nil =>
    cases ran
    exact ⟨rfl, [], .nil, fun _ _ _ mem => absurd mem List.not_mem_nil, .nil, nofun⟩
  | cons column rest ih =>
    obtain ⟨here, made⟩ := List.forall_mem_cons.1 made
    rw [check] at ran
    obtain ⟨name, g₁, named, ran⟩ := run_bind_eq_ok.1 ran
    obtain rfl := (keeps_name column).of_run named
    split at ran
    next =>
      obtain ⟨_, _, -, ran⟩ := run_bind_eq_ok.1 ran
      cases ran
    next fresh =>
    obtain ⟨n, g₂, length, ran⟩ := run_bind_eq_ok.1 ran
    obtain rfl := (keeps_length column).of_run length
    obtain ⟨rows, g₃, expected, ran⟩ := run_bind_eq_ok.1 ran
    obtain rfl := (keeps_length first).of_run expected
    split at ran
    next =>
      obtain ⟨_, _, -, ran⟩ := run_bind_eq_ok.1 ran
      obtain ⟨_, _, -, ran⟩ := run_bind_eq_ok.1 ran
      obtain ⟨_, _, -, ran⟩ := run_bind_eq_ok.1 ran
      cases ran
    next equal =>
    -- a column whose name was asked for is no value of another kind
    obtain ⟨rfl, pairs, checked⟩ := ih made ran
    rcases here with rfl | ⟨name', values, object⟩
    · cases named
    cases (name_run object).symm.trans named
    refine ⟨rfl, (name, values) :: pairs, .cons object checked.objects, ?_, ?_, ?_⟩
    · intro earlier mem
      refine List.forall_mem_cons.2 ⟨?_, checked.unseen earlier (List.mem_cons_of_mem _ mem)⟩
      exact Bool.eq_false_iff.2 fun same => fresh (List.any_eq_true.2 ⟨earlier, mem, same⟩)
    · exact .cons (checked.unseen name List.mem_cons_self) checked.distinct
    · refine List.forall_mem_cons.2 ⟨fun holds => ⟨n, rows, ?_, expected, by simpa using equal⟩,
        checked.even⟩
      obtain ⟨n', length'⟩ := exists_length? holds
      cases (length_run object length').symm.trans length
      exact length'

/-- But for the list of columns, all that holds values was there before. -/
theorem holdsValues_of_built {columns : List Value} (other : v ≠ .object g.size)
    (holds : holdsValues (built g columns) v = true) : holdsValues g v = true := by
  cases v with
  | object ref =>
    have apart : ref ≠ g.size := fun same => other (congrArg Value.object same)
    rcases Nat.lt_trichotomy ref (g.size + 1) with inside | rfl | beyond
    · have old : ref < g.size := Nat.lt_of_le_of_ne (Nat.le_of_lt_succ inside) apart
      have found : (built g columns).get? ref = g.get? ref := by
        rw [built, Graph.get?_add_of_lt _ _ (by rw [Graph.size_add]; exact inside),
          Graph.get?_add_of_lt _ _ old]
      rwa [holdsValues, Graph.objectOf?_object, found] at holds
    · have found := Graph.get?_add_size (g.add (madeList columns)) (tableObject (.object g.size))
      rw [Graph.size_add] at found
      rw [holdsValues, Graph.objectOf?_object, built, found] at holds
      cases holds
    · have none : (built g columns).get? ref = none := by
        rw [Option.eq_none_iff_forall_ne_some]
        intro o found
        have bound := Graph.lt_size_of_get? found
        rw [built, Graph.size_add, Graph.size_add] at bound
        exact absurd (Nat.le_of_lt_succ bound) (Nat.not_le.2 beyond)
      rw [holdsValues, Graph.objectOf?_object, none] at holds
      cases holds
  | _ => cases holds

/-- A table is built of columns only, and those that hold values are as long as the first one. -/
theorem build_ok {columns : List Value} (made : ∀ column ∈ columns, Made g column)
    (ran : (build columns).run g = (.ok v, k)) :
    k = built g columns ∧ ∃ pairs rows, Tabulates k v (.object g.size) columns pairs ∧
      ∀ pair ∈ pairs, holdsValues g pair.2 = true → HasRows k rows pair.2 := by
  rw [build] at ran
  obtain ⟨_, g₁, passed, made'⟩ := run_bind_eq_ok.1 ran
  obtain ⟨rfl, pairs, checked⟩ := check_ok made passed
  obtain ⟨list, g₂, ⟨⟩, ⟨⟩⟩ := run_bind_eq_ok.1 made'
  have ext := extends_built g₁ columns
  have tabulates : Tabulates (built g₁ columns) (.object (g₁.add (madeList columns)).size)
      (.object g₁.size) columns pairs :=
    ⟨Graph.get?_add_size _ _, (Graph.extends_add _ _).get?_size,
      checked.objects.imp fun _ _ found => ext.objectOf? found, checked.distinct⟩
  refine ⟨rfl, pairs, ?_⟩
  by_cases known : ∃ rows, (property (columns.head?.getD .undefined) "length").run g₁ =
      (.ok rows, g₁)
  · obtain ⟨rows, expected⟩ := known
    refine ⟨rows, tabulates, fun pair mem holds => ?_⟩
    obtain ⟨n, rows', length, expected', equal⟩ := checked.even pair mem holds
    cases expected.symm.trans expected'
    exact ⟨n, length?_of_extends ext length, equal⟩
  · refine ⟨.undefined, tabulates, fun pair mem holds => ?_⟩
    obtain ⟨n, rows, -, expected, -⟩ := checked.even pair mem holds
    exact absurd ⟨rows, expected⟩ known

theorem isLoose_of_build {columns : List Value} (made : ∀ column ∈ columns, Made g column)
    (ran : (build columns).run g = (.ok v, k)) : IsLoose k v := by
  obtain ⟨rfl, pairs, rows, tabulates, even⟩ := build_ok made ran
  exact ⟨_, _, pairs, rows, tabulates, fun pair mem other holds =>
    even pair mem (holdsValues_of_built other holds)⟩

/-- A column as it should be. -/
def MadeSound (g : Graph) (column : Value) : Prop :=
  column = .undefined ∨ ∃ name values, g.objectOf? column = some (columnObject name values) ∧
    name.text?.isSome = true ∧ holdsValues g values = true

theorem Tabulates.lists {table list : Value} {columns : List Value}
    {pairs : List (Value × Value)} (h : Tabulates g table list columns pairs) :
    Lists g table columns pairs :=
  ⟨⟨list, h.table, h.list⟩, h.objects⟩

theorem Tabulates.exists_column {table list : Value} {columns : List Value}
    {pairs : List (Value × Value)} (h : Tabulates g table list columns pairs) {pair : Value × Value}
    (mem : pair ∈ pairs) :
    ∃ column ∈ columns, g.objectOf? column = some (columnObject pair.1 pair.2) := by
  obtain ⟨i, inside, rfl⟩ := List.getElem_of_mem mem
  have bound : i < columns.length := h.objects.length_eq ▸ inside
  exact ⟨columns[i], List.getElem_mem bound, h.objects.get bound inside⟩

theorem isSound_of_build {columns : List Value} (made : ∀ column ∈ columns, MadeSound g column)
    (ran : (build columns).run g = (.ok v, k)) : g.Extends k ∧ IsSound k v := by
  have made' : ∀ column ∈ columns, Made g column := fun column mem =>
    (made column mem).imp_right fun ⟨name, values, found, _⟩ => ⟨name, values, found⟩
  obtain ⟨rfl, pairs, rows, tabulates, even⟩ := build_ok made' ran
  have ext := extends_built g columns
  refine ⟨ext, _, _, pairs, rows, tabulates, fun pair mem => ?_⟩
  obtain ⟨column, mem', object⟩ := tabulates.exists_column mem
  rcases made column mem' with rfl | ⟨name, values, found, text, holds⟩
  · cases object
  · cases (ext.objectOf? found).symm.trans object
    exact ⟨text, holdsValues_of_extends ext holds, even pair mem holds⟩

def HasValues (g : Graph) (column : Value) : Prop :=
  ∃ name values, g.objectOf? column = some (columnObject name values) ∧
    holdsValues g values = true

theorem build_typed_ok {columns : List Value} {table : Value}
    (typed : ∀ column ∈ columns, HasValues g column)
    (ran : (build columns).run g = (.ok table, k)) :
    g.Extends k ∧ ∃ pairs rows, Lists k table columns pairs ∧
      ((pairs.map Prod.fst).Pairwise fun a b => a.same b = false) ∧
      ∀ pair ∈ pairs, HasRows k rows pair.2 := by
  have made : ∀ column ∈ columns, Made g column := fun column mem =>
    .inr ((typed column mem).imp fun _ => .imp fun _ => And.left)
  obtain ⟨rfl, pairs, rows, tabulates, even⟩ := build_ok made ran
  have ext := extends_built g columns
  refine ⟨ext, pairs, rows, tabulates.lists, tabulates.distinct, fun pair mem => even pair mem ?_⟩
  obtain ⟨column, mem', object⟩ := tabulates.exists_column mem
  obtain ⟨name, values, found, holds⟩ := typed column mem'
  cases (ext.objectOf? found).symm.trans object
  exact holds

theorem readColumn_ok {payload : Value} (ran : (readColumn payload).run g = (.ok v, k)) :
    g.Extends k ∧ MadeSound k v := by
  obtain ⟨pair, spells, rfl, rfl⟩ := readColumn_eq_ok ran
  have ext := Graph.extends_add g (columnObject pair.1 pair.2)
  exact ⟨ext, .inr ⟨pair.1, pair.2, Graph.get?_add_size _ _, spells.text,
    holdsValues_of_extends ext spells.holds⟩⟩

theorem MadeSound.of_extends (ext : g.Extends k) (h : MadeSound g v) : MadeSound k v :=
  h.imp_right fun ⟨name, values, found, text, holds⟩ =>
    ⟨name, values, ext.objectOf? found, text, holdsValues_of_extends ext holds⟩

section Keeping

variable {R : Graph → Graph → Prop} (lasting : Lasting R) (grows : ∀ g o, R g (g.add o))

include lasting grows

theorem keeps_check (first : Value) (seen columns : List Value) :
    Keeps R (check first seen columns) := by
  have property (v : Value) (name : String) : Keeps R (property v name) :=
    .property lasting fun _ => grows
  have text := Keeps.text lasting grows
  induction columns generalizing seen with
  | nil => exact .pure lasting _
  | cons column rest ih =>
    have compared (name : Value) : Keeps R (do
        let rows ← Action.property column "length"
        let expected ← Action.property first "length"
        if !rows.equals expected then
          throw (unevenColumn (← Action.text name) (← Action.text rows) (← Action.text expected))
        check first (name :: seen) rest) := by
      refine .bind lasting (property _ _) fun rows =>
        .bind lasting (property _ _) fun expected => ?_
      dsimp only
      split
      · exact .bind lasting (text _) fun _ => .bind lasting (text _) fun _ =>
          .bind lasting (text _) fun _ => .bind lasting (.throw lasting _) fun _ => ih _
      · exact ih _
    rw [check]
    refine .bind lasting (property _ _) fun name => ?_
    dsimp only
    split
    · exact .bind lasting (text _) fun _ => .bind lasting (.throw lasting _) fun _ => compared name
    · exact compared name

theorem keeps_build (columns : List Value) : Keeps R (build columns) :=
  .bind lasting (keeps_check lasting grows _ _ columns) fun _ =>
    .bind lasting (.add grows _) fun _ => .add grows _

theorem keeps_columnItems (table : Value) : Keeps R (columnItems table) := by
  refine .bind lasting (.property lasting fun _ => grows) fun columns =>
    .bind lasting (.get lasting) fun g => ?_
  split
  · exact .pure lasting _
  · exact .throw lasting _

theorem keeps_columnToStructure (column : Value) : Keeps R (columnToStructure column) :=
  .bind lasting (.property lasting fun _ => grows) fun _ =>
    .bind lasting (.property lasting fun _ => grows) fun _ => .pure lasting _

theorem keeps_toStructure (table : Value) : Keeps R (toStructure table) := by
  refine .bind lasting (.property lasting fun _ => grows) fun _ =>
    .bind lasting (keeps_columnItems lasting grows table) fun items =>
      .bind lasting (.mapM lasting (fun item => ?_) items) fun _ =>
        .bind lasting (.add grows _) fun _ => .pure lasting _
  cases item with
  | some => exact .map lasting some (.property lasting fun _ => grows)
  | none => exact .pure lasting _

theorem keeps_writeColumn (column : Value) : Keeps R (writeColumn column) :=
  .bind lasting (keeps_columnToStructure lasting grows column) fun _ => .add grows _

theorem keeps_writeTable (table : Value) : Keeps R (writeTable table) := by
  refine .bind lasting (keeps_columnItems lasting grows table) fun items =>
    .bind lasting (.mapM lasting (fun item => ?_) items) fun _ => .add grows _
  cases item with
  | some => exact .map lasting some (keeps_writeColumn lasting grows _)
  | none => exact .pure lasting _

theorem keeps_columnOfStructure (pair : Value) : Keeps R (columnOfStructure pair) :=
  .bind lasting (.iterate lasting grows pair) fun _ => .add grows _

theorem keeps_ofStructure (pair : Value) : Keeps R (ofStructure pair) := by
  have property (v : Value) (name : String) : Keeps R (property v name) :=
    .property lasting fun _ => grows
  have text := Keeps.text lasting grows
  refine .bind lasting (.iterate lasting grows pair) fun items => .bind lasting (property _ _)
    fun _ => .bind lasting (property _ _) fun _ => .ite (.bind lasting (text _) fun _ =>
      .bind lasting (text _) fun _ => .bind lasting (.throw lasting _) fun _ => ?_) ?_
  all_goals
    refine .bind lasting (.objectOf? lasting _) fun found => ?_
    split
    · dsimp only
      split
      · refine .bind lasting (.mapM lasting (fun (item, i) => ?_) _) fun _ =>
          keeps_build lasting grows _
        cases item with
        | some => exact .bind lasting (property _ _) fun _ => .add grows _
        | none => exact .pure lasting _
      · refine .bind lasting (.mapM lasting (fun _ => .bind lasting (property _ _) fun _ => ?_) _)
          fun _ => keeps_build lasting grows _
        rw [storedObject.eq_def]
        split
        all_goals first | exact .pure lasting _ | exact .throw lasting _
      · exact .throw lasting _
    · exact .throw lasting _

theorem keeps_readColumn (payload : Value) : Keeps R (readColumn payload) := by
  refine .bind lasting (.get lasting) fun g => ?_
  split
  · dsimp only
    split
    · exact .bind lasting (.throw lasting _) fun _ => .bind lasting (.get lasting) fun k => by
        split
        · exact .add grows _
        · exact .throw lasting _
    · refine .bind lasting (.get lasting) fun k => ?_
      split
      · exact .add grows _
      · exact .throw lasting _
  · exact .throw lasting _

theorem keeps_readTable (payload : Value) : Keeps R (readTable payload) := by
  refine .bind lasting (.get lasting) fun g => ?_
  split
  · refine .bind lasting (.mapM lasting (fun item => ?_) _) (keeps_build lasting grows)
    split
    · exact keeps_readColumn lasting grows _
    · exact .pure lasting _
  · exact .throw lasting _

end Keeping

theorem readTable_ok {payload : Value} (ran : (readTable payload).run g = (.ok v, k)) :
    g.Extends k ∧ IsSound k v := by
  rw [readTable] at ran
  obtain ⟨_, _, ⟨⟩, ran⟩ := run_bind_eq_ok.1 ran
  split at ran
  next items _ =>
    obtain ⟨columns, middle, read, ran⟩ := run_bind_eq_ok.1 ran
    have made := mapM_ok (P := MadeSound) (fun ext sound => sound.of_extends ext) ?_ (.refl g) read
    · obtain ⟨ext, sound⟩ := isSound_of_build made.2 ran
      exact ⟨made.1.trans ext, sound⟩
    · intro item _ h column h' _ ran
      cases item with
      | some pair => exact readColumn_ok ran
      | none =>
        cases ran
        exact ⟨.refl _, .inl rfl⟩
  next => cases ran

/-- A table of one number in the place of a column, as it comes of a number array in the place of
the names. -/
def IsNumbered (g : Graph) (table : Value) : Prop :=
  ∃ list x, g.objectOf? table = some (tableObject list) ∧
    g.objectOf? list = some (madeList [.number x])

theorem keeps_index (v : Value) (i : Nat) : Keeps Eq (property v (toString i)) := by
  refine .property lasting_eq fun same => ?_
  have digits := all_isDigit_toString i
  rw [same] at digits
  exact absurd digits (by decide)

theorem Made.of_extends (ext : g.Extends k) (h : Made g v) : Made k v :=
  h.imp_right fun ⟨name, values, found⟩ => ⟨name, values, ext.objectOf? found⟩

theorem build_numbers_ok {columns : List Value}
    (numbers : ∀ column ∈ columns, ∃ x, column = .number x)
    (ran : (build columns).run g = (.ok v, k)) : IsLoose k v ∨ IsNumbered k v := by
  match columns with
  | [] => exact .inl (isLoose_of_build (fun _ mem => absurd mem List.not_mem_nil) ran)
  | [column] =>
    obtain ⟨x, rfl⟩ := numbers column List.mem_cons_self
    refine .inr ⟨.object g.size, x, ?_⟩
    cases ran
    exact ⟨Graph.get?_add_size _ _, (Graph.extends_add _ _).get?_size⟩
  | column :: column' :: rest =>
    obtain ⟨x, rfl⟩ := numbers column List.mem_cons_self
    obtain ⟨y, rfl⟩ := numbers column' (List.mem_cons_of_mem _ List.mem_cons_self)
    cases ran

theorem ofStructure_ok {pair : Value} (ran : (ofStructure pair).run g = (.ok v, k)) :
    IsLoose k v ∨ IsNumbered k v := by
  rw [ofStructure] at ran
  obtain ⟨items, _, -, ran⟩ := run_bind_eq_ok.1 ran
  obtain ⟨nameCount, _, -, ran⟩ := run_bind_eq_ok.1 ran
  obtain ⟨columnCount, _, -, ran⟩ := run_bind_eq_ok.1 ran
  split at ran
  next =>
    obtain ⟨_, _, -, ran⟩ := run_bind_eq_ok.1 ran
    obtain ⟨_, _, -, ran⟩ := run_bind_eq_ok.1 ran
    cases ran
  next =>
  obtain ⟨o, base, looked, ran⟩ := run_bind_eq_ok.1 ran
  split at ran
  next o =>
    split at ran
    next names _ =>
      obtain ⟨columns, middle, made, ran⟩ := run_bind_eq_ok.1 ran
      refine .inl (isLoose_of_build (mapM_ok (P := Made) ?_ ?_ (.refl _) made).2 ran)
      · exact fun ext made => made.of_extends ext
      · rintro ⟨item, i⟩ _ h column h' _ ran
        cases item with
        | some name =>
          obtain ⟨values, h, read, ran⟩ := run_bind_eq_ok.1 ran
          obtain rfl := (keeps_index _ i).of_run read
          cases ran
          exact ⟨Graph.extends_add _ _, .inr ⟨name, values, Graph.get?_add_size _ _⟩⟩
        | none =>
          cases ran
          exact ⟨.refl _, .inl rfl⟩
    next dtype _ _ =>
      obtain ⟨columns, middle, made, ran⟩ := run_bind_eq_ok.1 ran
      refine build_numbers_ok (mapM_ok (P := fun _ column => ∃ x, column = Value.number x) ?_ ?_
        (.refl _) made).2 ran
      · exact fun _ number => number
      · rintro ⟨item, i⟩ _ h column h' _ ran
        obtain ⟨values, h, read, ran⟩ := run_bind_eq_ok.1 ran
        obtain rfl := (keeps_index _ i).of_run read
        cases dtype <;> cases ran <;> exact ⟨.refl _, _, rfl⟩
    next => cases ran
  next => cases ran

theorem ofStructure_sound {pair namesList valuesList : Value} {slots : List (Option Value)}
    {names values : List Value} (found : g.items? pair = some slots)
    (first : slot (slots.map (·.getD .undefined)) 0 = namesList)
    (second : slot (slots.map (·.getD .undefined)) 1 = valuesList)
    (named : HasItems g namesList names) (held : HasItems g valuesList values)
    (few : names.length < 2 ^ 53) (few' : values.length < 2 ^ 53)
    (texts : ∀ name ∈ names, name.text?.isSome = true)
    (holds : ∀ w ∈ values, holdsValues g w = true)
    (ran : (ofStructure pair).run g = (.ok v, k)) : IsSound k v := by
  by_cases length : names.length = values.length
  · rw [ofStructure_eq_build found first second named held length] at ran
    refine (isSound_of_build (fun column mem => ?_) ran).2
    obtain ⟨⟨name, w⟩, mem', object⟩ :=
      exists_of_forall₂_left (objects_newColumns g (names.zip values)) mem
    obtain ⟨mem, mem'⟩ := List.of_mem_zip mem'
    exact .inr ⟨name, w, object, texts name mem,
      holdsValues_of_extends (extends_added g _) (holds w mem')⟩
  · cases (ofStructure_mismatch_run found first second named held few few' length).symm.trans ran

end Marshal.Table
