import Marshal.Proofs.Number.Digits
import Marshal.Proofs.Pickle
import Marshal.Proofs.Table.Structure

namespace Marshal

namespace Action

open Marshal.Effect

theorem lookup_zipIdx_of_lt {n i : Nat} (before : i < n) (items : List (Option Value)) :
    ((items.zipIdx n).filterMap fun (item, i) => item.map (toString i, ·)).lookup (toString i) =
      none := by
  rw [List.lookup_eq_none_iff]
  intro p mem
  obtain ⟨⟨item, j⟩, inside, same⟩ := List.mem_filterMap.1 mem
  obtain ⟨w, -, rfl⟩ := Option.map_eq_some_iff.1 same
  have le := (List.mem_zipIdx inside).1
  rw [bne_iff_ne]
  exact fun same => absurd (eq_of_toString_eq same) (by omega)

theorem lookup_zipIdx_of_holes (items : List (Option Value)) (n i : Nat) :
    ((items.zipIdx n).filterMap fun (item, i) => item.map (toString i, ·)).lookup
      (toString (n + i)) = items[i]?.join := by
  induction items generalizing n i with
  | nil => rfl
  | cons item rest ih =>
    rw [List.zipIdx_cons]
    cases i with
    | zero =>
      cases item with
      | none => exact lookup_zipIdx_of_lt n.lt_succ_self rest
      | some w => exact List.lookup_cons_self
    | succ i =>
      have other : (toString (n + (i + 1)) == toString n) = false := by
        rw [beq_eq_false_iff_ne]
        exact fun same => absurd (eq_of_toString_eq same) (by omega)
      have later := ih (n + 1) i
      rw [Nat.add_right_comm, Nat.add_assoc] at later
      cases item with
      | none => exact later
      | some w =>
        change ((toString n, w) :: _).lookup _ = _
        rw [List.lookup_cons, other]
        exact later

section Indices

variable {name : String} (digits : name.toList.all Char.isDigit = true)

include digits

theorem ne_of_digits {other : String} (spelled : other.toList.all Char.isDigit = false) :
    name ≠ other := by
  rintro rfl
  cases digits.symm.trans spelled

theorem hidden?_of_digits (o : Object) : o.hidden? name = none := by
  unfold Object.hidden?
  split <;> first | rfl | exact absurd digits (by decide)

theorem property_digits_run {g : Graph} {v : Value} {o : Object} (found : g.objectOf? v = some o)
    (absent : o.entries.lookup name = none) (free : ∀ c, o.kind = some c → c.member? name = none) :
    (property v name).run g = (.ok .undefined, g) := by
  have other {word : String} (spelled : word.toList.all Char.isDigit = false) :
      (name == word) = false :=
    beq_eq_false_iff_ne.2 (ne_of_digits digits spelled)
  have unread : o.read? v name = none := by
    have own : o.fields.get? name = none := by
      rw [Object.entries, List.lookup_append, Option.or_eq_none_iff] at absent
      exact absent.2
    rw [Object.read?, own]
    cases kind : o.kind with
    | none => rfl
    | some c =>
      change (c.member? name).map _ = none
      rw [free c kind, Option.map_none]
  cases v with
  | object ref =>
    rw [property, run_bind, run_get]
    dsimp only
    rw [propertyWith, run_bind, objectOf?_run, found]
    dsimp only
    rw [absent, hidden?_of_digits digits]
    rw [show (none <|> none : Option Value) = none from rfl]
    simp only [other (by decide : "length".toList.all Char.isDigit = false),
      other (by decide : "numRows".toList.all Char.isDigit = false),
      other (by decide : "columnNames".toList.all Char.isDigit = false), Bool.and_false,
      Bool.or_false, Bool.false_eq_true, if_false]
    rw [unread]
    rfl
  | _ => cases found

end Indices

end Action

namespace Table

open Marshal.Action
open Marshal.Effect

variable {g h k last : Graph} {o r : Object} {i : Nat} {v w column values table record : Value}
  {columns : List Value} {names : List String} {pairs : List (Value × Value)}

/-- A list, number array or the like that holds these items, and nothing else under an index. -/
def Series (g : Graph) (v : Value) (items : List (Option Value)) : Prop :=
  ∃ o, g.objectOf? v = some o ∧ o.indexed = items ∧ ∀ i : Nat,
    o.fields.lookup (toString i) = none ∧ ∀ c, o.kind = some c → c.member? (toString i) = none

def At (g : Graph) (i : Nat) (column w : Value) : Prop :=
  (valueAt column (.nat i)).run g = (.ok w, g)

theorem Series.property_run {items : List (Option Value)} (series : Series g v items) (i : Nat) :
    (property v (toString i)).run g = (.ok (items[i]?.join.getD .undefined), g) := by
  obtain ⟨o, found, rfl, free⟩ := series
  obtain ⟨absent, free⟩ := free i
  have indexed := lookup_zipIdx_of_holes o.indexed 0 i
  rw [Nat.zero_add] at indexed
  have entry : o.entries.lookup (toString i) = o.indexed[i]?.join := by
    rw [Object.entries, List.lookup_append, indexed, absent, Option.or_none]
  cases item : o.indexed[i]?.join with
  | some w => exact Action.property_run found (by rw [entry, item]; rfl)
  | none => exact property_digits_run (all_isDigit_toString i) found (entry.trans item) free

theorem key_nat_run (small : i < 2 ^ 53) (g : Graph) :
    (key (.nat i)).run g = (.ok (toString i), g) := by
  rw [← Number.text_ofNat small]
  exact text_number_run _ g

theorem valueAt_run_eq (small : i < 2 ^ 53) {name : Value}
    (object : g.objectOf? column = some (columnObject name values)) :
    (valueAt column (.nat i)).run g =
      if values.isNullish then (.error .misuse, g) else (property values (toString i)).run g := by
  rw [valueAt, run_bind, property_run object rfl]
  dsimp only
  split
  · rfl
  · rw [run_bind, key_nat_run small]

theorem keeps_valueAt (small : i < 2 ^ 53) {name : Value}
    (object : g.objectOf? column = some (columnObject name values))
    (ran : (valueAt column (.nat i)).run g = (.ok w, k)) : k = g := by
  rw [valueAt_run_eq small object] at ran
  split at ran
  · cases ran
  · exact ((keeps_index values i).of_run ran).symm

section Cells

theorem key_run {name : Value} {text : String} (spelled : name.text? = some text) (g : Graph) :
    (key name).run g = (.ok text, g) := by
  cases name with
  | string | brokenText =>
    cases spelled
    exact text_run_of_text? rfl g
  | _ => cases spelled

theorem assignCell_run {name : Value} {text : String} (spelled : name.text? = some text)
    (object : g.objectOf? column = some (columnObject name values)) (value : At g i column w) :
    (assignCell (.nat i) o column).run g = (o.assign g text w, g) := by
  rw [assignCell, run_bind, name_run object]
  dsimp only
  rw [run_bind, value]
  dsimp only
  rw [run_bind, key_run spelled]
  exact assign_run o text w g

def Named (g : Graph) (columns : List Value) (names : List String) : Prop :=
  List.Forall₂ (fun column text => ∃ name values, name.text? = some text ∧
    g.objectOf? column = some (columnObject name values)) columns names

/-- What the columns have at an index, under their names. -/
def Cells (g : Graph) (i : Nat) (columns : List Value) (cells : List (String × Value)) : Prop :=
  List.Forall₂ (fun column (cell : String × Value) => At g i column cell.2) columns cells

theorem foldlM_assignCell_ok (small : i < 2 ^ 53) (named : Named g columns names)
    (ran : (columns.foldlM (assignCell (.nat i)) o).run g = (.ok r, k)) :
    ∃ cells, cells.map Prod.fst = names ∧ Cells g i columns cells ∧
      o.assignAll g cells = .ok r ∧ k = g := by
  induction named generalizing o with
  | nil =>
    cases ran
    exact ⟨[], rfl, .nil, rfl, rfl⟩
  | @cons column text columns names first _ ih =>
    obtain ⟨name, values, spelled, object⟩ := first
    rw [List.foldlM_cons] at ran
    obtain ⟨o', g', first, rest⟩ := run_bind_eq_ok.1 ran
    obtain ⟨w, value⟩ : ∃ w, At g i column w := by
      rw [assignCell, run_bind, name_run object] at first
      obtain ⟨w, k, value, -⟩ := run_bind_eq_ok.1 first
      obtain rfl := keeps_valueAt small object value
      exact ⟨w, value⟩
    rw [assignCell_run spelled object value] at first
    obtain ⟨assigned, rfl⟩ := Prod.mk.inj first
    obtain ⟨cells, names, at', all, same⟩ := ih rest
    refine ⟨(text, w) :: cells, congrArg (text :: ·) names, .cons value at', ?_, same⟩
    exact (Object.assignAll_cons (text, w) assigned).trans all

theorem foldlM_assignCell_run (named : Named g columns names)
    {cells : List (String × Value)} (same : cells.map Prod.fst = names)
    (at' : Cells g i columns cells) (assigned : o.assignAll g cells = .ok r) :
    (columns.foldlM (assignCell (.nat i)) o).run g = (.ok r, g) := by
  induction named generalizing o cells with
  | nil =>
    cases at'
    cases assigned
    rfl
  | @cons column text columns names first _ ih =>
    obtain ⟨name, values, spelled, object⟩ := first
    cases at' with
    | @cons _ cell _ cells value at' =>
      obtain ⟨rfl, others⟩ : cell.1 = text ∧ cells.map Prod.fst = names := List.cons.inj same
      rw [List.foldlM_cons, run_bind, assignCell_run spelled object value]
      rw [Object.assignAll, List.foldlM_cons] at assigned
      cases first : o.assign g cell.1 cell.2 with
      | error fault =>
        rw [first] at assigned
        cases assigned
      | ok o' =>
        rw [first] at assigned
        exact ih others at' assigned

theorem exists_cells (named : Named g columns names)
    (each : ∀ column ∈ columns, ∃ w, At g i column w) :
    ∃ cells, cells.map Prod.fst = names ∧ Cells g i columns cells := by
  induction named with
  | nil => exact ⟨[], rfl, .nil⟩
  | @cons column text _ _ _ _ ih =>
    obtain ⟨⟨w, value⟩, each⟩ := List.forall_mem_cons.1 each
    obtain ⟨cells, names, at'⟩ := ih each
    exact ⟨(text, w) :: cells, congrArg (text :: ·) names, .cons value at'⟩

end Cells

/-- A new record of what the columns have at an index, under their names. A column with the name of
the ancestry is not there. -/
structure IsRow (g : Graph) (i : Nat) (columns : List Value) (names : List String) (record : Value)
    (last : Graph) : Prop where
  exists_object : ∃ r : Object, record = .object g.size ∧ last = g.add r ∧ r.body = .plain ∧
    r.fields.keys.Perm (names.filter (· != "__proto__")) ∧
    ("__proto__" ∉ names → r.kind = some .object)
  reads : List.Forall₂ (fun column name => name ≠ "__proto__" →
    ∃ w, At g i column w ∧ (property record name).run last = (.ok w, last)) columns names

/-- What a column with the name of the ancestry has at an index leaves the other columns their
places: where it is an object, its class has no setter under their names. -/
def LeavesRoom (g : Graph) (i : Nat) (columns : List Value) (names : List String) : Prop :=
  ∀ p ∈ columns.zip names, p.2 = "__proto__" → ∀ ref, At g i p.1 (.object ref) →
    ∀ name ∈ names, name ≠ "__proto__" → (g.classBelow (.object ref)).takes name = true

theorem leavesRoom_of_not_mem (plain : "__proto__" ∉ names) : LeavesRoom g i columns names :=
  fun _ mem same => absurd (same ▸ (List.of_mem_zip mem).2) plain

theorem row_run_eq (lists : Lists g table columns pairs) :
    (row table (.nat i)).run g =
      (columns.foldlM (assignCell (.nat i)) ({ kind := some .object } : Object) >>= add).run g := by
  rw [row, run_bind, lists.columnItems_run]
  dsimp only
  rw [List.map_map]
  have columns' : columns.map ((·.getD .undefined) ∘ some) = columns := List.map_id columns
  rw [columns']

theorem row_ok (small : i < 2 ^ 53) (lists : Lists g table columns pairs)
    (named : Named g columns names) (distinct : names.Nodup) (room : LeavesRoom g i columns names)
    (ran : (row table (.nat i)).run g = (.ok record, last)) :
    IsRow g i columns names record last := by
  rw [row_run_eq lists] at ran
  obtain ⟨r, g', folded, ran⟩ := run_bind_eq_ok.1 ran
  cases ran
  obtain ⟨cells, rfl, at', assigned, rfl⟩ := foldlM_assignCell_ok small named folded
  have later : ∀ ref, ("__proto__", .object ref) ∈ cells → ∀ cell ∈ cells,
      cell.1 ≠ "__proto__" → (g'.classBelow (.object ref)).takes cell.1 = true := by
    intro ref mem cell mem' other
    obtain ⟨j, bound, at_j⟩ := List.getElem_of_mem mem
    have bound' : j < columns.length := at'.length_eq ▸ bound
    refine room (columns[j], "__proto__") ?_ rfl ref ?_ cell.1 (List.mem_map_of_mem mem') other
    · refine List.mem_iff_getElem.2 ⟨j, by simp [bound, bound'], ?_⟩
      rw [List.getElem_zip, List.getElem_map, at_j]
    · have value := at'.get bound' bound
      rwa [List.get_eq_getElem, List.get_eq_getElem, at_j] at value
  obtain ⟨kind, stored⟩ := Object.assignAll_stores (o := { kind := some .object }) distinct
    (fun _ => rfl) (fun c own entry _ _ => by cases own; exact Class.takes_of_absent rfl) later
  cases stored.symm.trans assigned
  have unique : ((cells.filter (·.1 != "__proto__")).map Prod.fst).Nodup :=
    distinct.sublist (List.filter_sublist.map Prod.fst)
  have perm : (Fields.ofList (cells.filter (·.1 != "__proto__"))).Perm
      (cells.filter (·.1 != "__proto__")) := Fields.ofList_perm unique
  refine ⟨⟨_, rfl, rfl, rfl, ?_, fun plain => ?_⟩, ?_⟩
  · rw [List.filter_map]
    exact perm.map Prod.fst
  · have whole := Object.assignAll_of_takes (g := g') (o := { kind := some .object })
      (fun cell mem same => absurd (List.mem_map.2 ⟨cell, mem, same⟩) plain)
      (fun c own entry _ => by cases own; exact Class.takes_of_absent rfl)
    exact (congrArg Object.kind (Except.ok.inj (stored.symm.trans whole)) :)
  · refine List.forall₂_map_right_iff.2 (List.forall₂_iff_zip.2 ⟨at'.length_eq, ?_⟩)
    intro column cell mem other
    refine ⟨cell.2, List.forall₂_zip at' mem, property_run (Graph.get?_add_size _ _) ?_⟩
    have stored : cell ∈ Fields.ofList (cells.filter (·.1 != "__proto__")) :=
      perm.mem_iff.2 (List.mem_filter.2 ⟨(List.of_mem_zip mem).2, bne_iff_ne.2 other⟩)
    change ((Fields.ofList _).lookup cell.1 <|> _) = _
    rw [Fields.lookup_of_mem ((perm.map Prod.fst).nodup_iff.2 unique) stored]
    rfl

theorem exists_row_run (lists : Lists g table columns pairs)
    (named : Named g columns names) (plain : "__proto__" ∉ names)
    (each : ∀ column ∈ columns, ∃ w, At g i column w) :
    ∃ record last, (row table (.nat i)).run g = (.ok record, last) := by
  obtain ⟨cells, rfl, at'⟩ := exists_cells named each
  have assigned := Object.assignAll_of_takes (g := g) (o := { kind := some .object })
    (fun cell mem same => absurd (List.mem_map.2 ⟨cell, mem, same⟩) plain)
    (fun c own entry _ => by cases own; exact Class.takes_of_absent rfl)
  have folded := foldlM_assignCell_run named rfl at' assigned
  exact ⟨_, _, by rw [row_run_eq lists, run_bind, folded]; rfl⟩

theorem Series.at_run {items : List (Option Value)} (series : Series g values items)
    (small : i < 2 ^ 53) {name : Value}
    (object : g.objectOf? column = some (columnObject name values)) :
    At g i column (items[i]?.join.getD .undefined) := by
  have present : values.isNullish = false := by
    obtain ⟨o, found, -⟩ := series
    cases values with
    | object => rfl
    | _ => cases found
  rw [At, valueAt_run_eq small object, present, if_neg Bool.false_ne_true, series.property_run]

section Search

theorem find_cons_run {wanted name : Value} {rest : List (Option Value)}
    (object : g.objectOf? column = some (columnObject name values))
    (text : wanted.text?.isSome = true) :
    (getColumn.find wanted (some column :: rest)).run g =
      if name = wanted then (.ok column, g) else (getColumn.find wanted rest).run g := by
  rw [getColumn.find, Option.getD_some, run_bind, name_run object]
  simp only [Value.equals_iff_of_text text]
  split <;> rfl

theorem find_run (objects : List.Forall₂ (fun column (pair : Value × Value) =>
      g.objectOf? column = some (columnObject pair.1 pair.2)) columns pairs)
    (distinct : (pairs.map Prod.fst).Nodup) (texts : ∀ pair ∈ pairs, pair.1.text?.isSome = true) :
    List.Forall₂ (fun column (pair : Value × Value) =>
      (getColumn.find pair.1 (columns.map some)).run g = (.ok column, g)) columns pairs := by
  induction objects with
  | nil => exact .nil
  | @cons column pair columns pairs object objects ih =>
    obtain ⟨once, distinct⟩ := List.nodup_cons.1 distinct
    obtain ⟨text, texts⟩ := List.forall_mem_cons.1 texts
    refine .cons ?_ ?_
    · rw [List.map_cons, find_cons_run object text, if_pos rfl]
    · have later := ih distinct texts
      refine List.forall₂_iff_zip.2 ⟨later.length_eq, fun mem => ?_⟩
      have mem' := (List.of_mem_zip mem).2
      have other : pair.1 ≠ _ := fun same => once (same ▸ List.mem_map_of_mem mem')
      rw [List.map_cons, find_cons_run object (texts _ mem'), if_neg other]
      exact List.forall₂_zip later mem

end Search

/-- The names of a table that was built are distinct texts. As long as the table lasts, its column
names are the columns' names in order, and each column is found under its name. A row has exactly
the columns' names, each with what the column has at the index, and it is made at any index if the
columns' values are lists or number arrays. Only a column with the name of the ancestry is lost.
The names of a row are those that stand apart as texts without lone surrogates. -/
theorem rows_agree_with_columns
    (objects : List.Forall₂ (fun column (pair : Value × Value) =>
      g.objectOf? column = some (columnObject pair.1 pair.2)) columns pairs)
    (texts : ∀ pair ∈ pairs, pair.1.text?.isSome = true)
    (ran : (build columns).run g = (.ok table, k)) :
    (pairs.map Prod.fst).Nodup ∧ ∀ h, k.Extends h →
      (∃ list last, (columnNames table).run h = (.ok list, last) ∧
        HasItems last list (pairs.map Prod.fst)) ∧
      List.Forall₂ (fun column (pair : Value × Value) =>
        (property column "name").run h = (.ok pair.1, h) ∧
          (getColumn table pair.1).run h = (.ok column, h)) columns pairs ∧
      ∀ names : List String, pairs.map (·.1.text?) = names.map some → names.Nodup → ∀ i < 2 ^ 53,
        (∀ record last, LeavesRoom h i columns names →
          (row table (.nat i)).run h = (.ok record, last) → IsRow h i columns names record last) ∧
        (List.Forall₂ (fun column (pair : Value × Value) => ∀ items, Series h pair.2 items →
          At h i column (items[i]?.join.getD .undefined)) columns pairs) ∧
        ("__proto__" ∉ names → (∀ column ∈ columns, ∃ w, At h i column w) →
          ∃ record last, (row table (.nat i)).run h = (.ok record, last)) := by
  have made : ∀ column ∈ columns, Made g column := by
    intro column mem
    obtain ⟨pair, -, object⟩ := exists_of_forall₂_left objects mem
    exact .inr ⟨pair.1, pair.2, object⟩
  obtain ⟨rfl, pairs', rows, tabulates, -⟩ := build_ok made ran
  obtain rfl : pairs = pairs' := by
    refine List.right_unique_forall₂' ?_
      (objects.imp fun _ _ found => (extends_built g columns).objectOf? found) tabulates.objects
    rintro column ⟨name, values⟩ ⟨name', values'⟩ found found'
    cases found.symm.trans found'
    rfl
  have distinct : (pairs.map Prod.fst).Nodup :=
    (Value.pairwise_same_iff_nodup (List.forall_mem_map.2 texts)).1 tabulates.distinct
  refine ⟨distinct, fun h later => ?_⟩
  have lists := tabulates.lists.of_extends later
  refine ⟨⟨_, _, lists.columnNames_run, hasItems_of_madeList (Graph.get?_add_size _ _)⟩, ?_, ?_⟩
  · have found := find_run lists.objects distinct texts
    refine List.forall₂_iff_zip.2 ⟨found.length_eq, fun mem => ⟨?_, ?_⟩⟩
    · exact name_run (List.forall₂_zip lists.objects mem)
    · rw [getColumn, run_bind, lists.columnItems_run]
      exact List.forall₂_zip found mem
  · intro names spelled unique i small
    have named : Named h columns names := by
      have texts : List.Forall₂ (fun column text => ∃ name values, name.text? = text ∧
          h.objectOf? column = some (columnObject name values)) columns (names.map some) := by
        rw [← spelled, List.forall₂_map_right_iff]
        exact lists.objects.imp fun _ pair object => ⟨pair.1, pair.2, rfl, object⟩
      exact List.forall₂_map_right_iff.1 texts
    exact ⟨fun record last room ran => row_ok small lists named unique room ran,
      lists.objects.imp fun _ _ object items series => series.at_run small object,
      exists_row_run lists named⟩

theorem member?_array_toString (i : Nat) : Class.array.member? (toString i) = none := by
  have other : ("length" == toString i) = false :=
    beq_eq_false_iff_ne.2 (ne_of_digits (all_isDigit_toString i) (by decide)).symm
  have own : Class.array.ownMember? (toString i) = none := by
    rw [Class.ownMember?]
    exact List.find?_cons_of_neg (Bool.eq_false_iff.1 other)
  rw [Class.member?, show Class.array.lineage = [.array, .object] from rfl, List.findSome?_cons,
    own]
  rfl

namespace Sample

/-- Two columns with names that mean something elsewhere, and two more of which one has the name of
the ancestry. -/
def ledger : Graph :=
  ⟨#[Graph.reservedObject, madeList [.nat 1, .nat 2], madeList [.bool true, .null],
    columnObject (.string "constructor") (.object 1), columnObject (.string "7") (.object 2),
    madeList [.nat 5], madeList [.nat 2], columnObject (.string "__proto__") (.object 5),
    columnObject (.string "z") (.object 6)]⟩

/-- The names of the first two columns do no harm. The record has them in its own order. -/
theorem row_of_ledger :
    ∃ table k record last r, (build [.object 3, .object 4]).run ledger = (.ok table, k) ∧
      (row table (.nat 1)).run k = (.ok record, last) ∧ last.objectOf? record = some r ∧
      r.fields.keys.Perm ["constructor", "7"] ∧
      (property record "constructor").run last = (.ok (.nat 2), last) ∧
      (property record "7").run last = (.ok .null, last) := by
  have objects : List.Forall₂ (fun column (pair : Value × Value) =>
      ledger.objectOf? column = some (columnObject pair.1 pair.2)) [.object 3, .object 4]
      [(.string "constructor", .object 1), (.string "7", .object 2)] := .cons rfl (.cons rfl .nil)
  have built : (build [.object 3, .object 4]).run ledger = (.ok (.object 10), _) := rfl
  obtain ⟨-, later⟩ := rows_agree_with_columns objects (by decide) built
  obtain ⟨-, -, rows⟩ := later _ (.refl _)
  obtain ⟨agrees, values, exist⟩ :=
    rows ["constructor", "7"] rfl (by decide) 1 (by decide)
  have numbers := (List.forall₂_cons.1 values).1 [some (.nat 1), some (.nat 2)]
    ⟨_, rfl, rfl, fun i => ⟨rfl, fun c same => by cases same; exact member?_array_toString i⟩⟩
  have flags := (List.forall₂_cons.1 (List.forall₂_cons.1 values).2).1
    [some (.bool true), some .null] ⟨_, rfl, rfl, fun i => ⟨rfl, fun c same => by
      cases same
      exact member?_array_toString i⟩⟩
  obtain ⟨record, last, ran⟩ := exist (by decide) (by
    simp only [List.forall_mem_cons, List.not_mem_nil, false_implies, implies_true, and_true]
    exact ⟨⟨_, numbers⟩, _, flags⟩)
  obtain ⟨⟨r, rfl, rfl, -, keys, -⟩, reads⟩ :=
    agrees record last (leavesRoom_of_not_mem (by decide)) ran
  obtain ⟨first, second⟩ := List.forall₂_cons.1 reads
  obtain ⟨w, cell, read⟩ := first (by decide)
  obtain ⟨w', cell', read'⟩ := (List.forall₂_cons.1 second).1 (by decide)
  cases numbers.symm.trans cell
  cases flags.symm.trans cell'
  exact ⟨_, _, _, _, r, built, ran, Graph.get?_add_size _ r, keys, read, read'⟩

/-- But a column with the name of the ancestry is not in a row. -/
theorem proto_column_lost :
    ∃ table k record last r, (build [.object 7, .object 8]).run ledger = (.ok table, k) ∧
      (getColumn table (.string "__proto__")).run k = (.ok (.object 7), k) ∧
      (valueAt (.object 7) (.nat 0)).run k = (.ok (.nat 5), k) ∧
      (row table (.nat 0)).run k = (.ok record, last) ∧ last.objectOf? record = some r ∧
      r.fields = [("z", .nat 2)] :=
  ⟨_, _, _, _, _, rfl, rfl, rfl, rfl, rfl, rfl⟩

end Sample

end Table

end Marshal
