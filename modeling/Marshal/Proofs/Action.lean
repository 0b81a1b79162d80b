import Mathlib.Data.List.Forall2
import Marshal.Action
import Marshal.Proofs.Effect

namespace Marshal.Action

open Marshal.Effect

theorem add_run (o : Object) (g : Graph) :
    (add o).run g = (.ok (.object g.size), g.add o) := rfl

theorem objectOf?_run (v : Value) (g : Graph) :
    (objectOf? v).run g = (.ok (g.objectOf? v), g) := rfl

def madeList (items : List Value) : Object :=
  { kind := some .array, body := .list (items.map some) }

theorem newList_run (items : List Value) (g : Graph) :
    (newList items).run g = (.ok (.object g.size), g.add (madeList items)) := rfl

theorem propertyWith_run {g : Graph} {v x : Value} {o : Object} {name : String}
    (found : g.objectOf? v = some o)
    (held : (o.entries.lookup name <|> o.hidden? name) = some x) (fuel : Nat) :
    (propertyWith (fuel + 1) v name).run g = (.ok x, g) := by
  cases v with
  | object ref =>
    rw [propertyWith, run_bind, objectOf?_run, found]
    dsimp only
    rw [held]
    rfl
  | _ => cases found

theorem property_run {g : Graph} {v x : Value} {o : Object} {name : String}
    (found : g.objectOf? v = some o)
    (held : (o.entries.lookup name <|> o.hidden? name) = some x) :
    (property v name).run g = (.ok x, g) := by
  rw [property, run_bind, run_get]
  exact propertyWith_run found held (g.size + 1)

theorem eq_of_toString_eq {m n : Nat} (same : toString m = toString n) : m = n := by
  have digits : Nat.toDigits 10 m = Nat.toDigits 10 n := by
    rw [← Nat.toList_repr, ← Nat.toList_repr]
    exact congrArg String.toList same
  rw [← Text.natOfDigits_toDigits m, digits, Text.natOfDigits_toDigits]

theorem lookup_zipIdx (items : List Value) (n i : Nat) :
    ((items.zipIdx n).map fun (w, i) => (toString i, w)).lookup (toString (n + i)) = items[i]? := by
  induction items generalizing n i with
  | nil => rfl
  | cons first rest ih =>
    rw [List.zipIdx_cons, List.map_cons, List.lookup_cons]
    cases i with
    | zero => simp
    | succ i =>
      have other : (toString (n + (i + 1)) == toString n) = false := by
        rw [beq_eq_false_iff_ne]
        intro same
        have := eq_of_toString_eq same
        omega
      rw [other, ← Nat.add_assoc, Nat.add_right_comm, List.getElem?_cons_succ]
      exact ih (n + 1) i

theorem all_isDigit_toString (i : Nat) : (toString i).toList.all Char.isDigit = true := by
  rw [List.all_eq_true, show toString i = i.repr from rfl, Nat.toList_repr]
  intro c mem
  exact Nat.isDigit_of_mem_toDigits (by decide) (by decide) mem

theorem lookup_indexed {name : String} (spelled : name.toList.all Char.isDigit = false)
    (items : List (Option Value)) :
    (items.zipIdx.filterMap fun (item, i) => item.map (toString i, ·)).lookup name = none := by
  rw [List.lookup_eq_none_iff]
  intro p mem
  obtain ⟨⟨item, i⟩, -, same⟩ := List.mem_filterMap.1 mem
  obtain ⟨v, -, rfl⟩ := Option.map_eq_some_iff.1 same
  rw [bne_iff_ne]
  rintro rfl
  rw [all_isDigit_toString] at spelled
  cases spelled

theorem lookup_or_hidden {o : Object} {name : String} {x : Value} (bare : o.fields = [])
    (spelled : name.toList.all Char.isDigit = false) (held : o.hidden? name = some x) :
    (o.entries.lookup name <|> o.hidden? name) = some x := by
  rw [Object.entries, bare, List.append_nil, lookup_indexed spelled, held]
  rfl

theorem property_hidden_run {g : Graph} {v x : Value} {o : Object} {name : String}
    (found : g.objectOf? v = some o) (bare : o.fields = [])
    (spelled : name.toList.all Char.isDigit = false) (held : o.hidden? name = some x) :
    (property v name).run g = (.ok x, g) :=
  property_run found (lookup_or_hidden bare spelled held)

/-- The value is a list of these items, without holes and without fields of its own. -/
def HasItems (g : Graph) (v : Value) (items : List Value) : Prop :=
  ∃ o, g.objectOf? v = some o ∧ o.fields = [] ∧ o.body = .list (items.map some)

theorem hasItems_of_madeList {g : Graph} {v : Value} {items : List Value}
    (found : g.objectOf? v = some (madeList items)) : HasItems g v items :=
  ⟨_, found, rfl, rfl⟩

theorem entries_of_items {o : Object} {items : List Value} (bare : o.fields = [])
    (list : o.body = .list (items.map some)) :
    o.entries = items.zipIdx.map fun (w, i) => (toString i, w) := by
  have indexed : o.indexed = items.map some := by rw [Object.indexed, list]
  rw [Object.entries, bare, List.append_nil, indexed, List.zipIdx_map, List.filterMap_map,
    ← List.filterMap_eq_map]
  rfl

theorem property_index_run {g : Graph} {v w : Value} {items : List Value} {i : Nat}
    (list : HasItems g v items) (held : items[i]? = some w) :
    (property v (toString i)).run g = (.ok w, g) := by
  obtain ⟨o, found, bare, list⟩ := list
  refine property_run found ?_
  have entry := lookup_zipIdx items 0 i
  rw [Nat.zero_add, held] at entry
  rw [entries_of_items bare list, entry]
  rfl

theorem HasItems.length_run {g : Graph} {v : Value} {items : List Value} (h : HasItems g v items) :
    (property v "length").run g = (.ok (.nat items.length), g) := by
  obtain ⟨o, found, bare, list⟩ := h
  have hidden : o.hidden? "length" = some (.nat (items.map some).length) := by
    rw [Object.hidden?.eq_def, list]
    rfl
  rw [List.length_map] at hidden
  exact property_hidden_run found bare (by decide) hidden

theorem iterate_run_of_items {g : Graph} {v : Value} {items : List (Option Value)}
    (found : g.items? v = some items) :
    (iterate v).run g = (.ok (items.map (·.getD .undefined)), g) := by
  unfold Graph.items? at found
  split at found
  next items' body =>
    cases found
    obtain ⟨o, object, same⟩ := Option.map_eq_some_iff.1 body
    cases v with
    | object ref =>
      rw [iterate, run_bind, objectOf?_run, object]
      dsimp only
      rw [same]
      rfl
    | _ => cases object
  next => cases found

theorem iterate_madeList_run {g : Graph} {v : Value} {items : List Value}
    (found : g.objectOf? v = some (madeList items)) : (iterate v).run g = (.ok items, g) := by
  have list : g.items? v = some (items.map some) := by
    rw [Graph.items?, found]
    rfl
  rw [iterate_run_of_items list, List.map_map]
  exact congrArg (fun items => (Except.ok items, g)) (List.map_id items)

theorem mapM_run_of_forall₂ {α β γ : Type} {f : α → Action β} {r : γ → β} {g : Graph}
    {l : List α} {m : List γ} (all : List.Forall₂ (fun x y => (f x).run g = (.ok (r y), g)) l m) :
    (l.mapM f).run g = (.ok (m.map r), g) := by
  induction all with
  | nil => rfl
  | cons first _ ih =>
    rw [List.mapM_cons, run_bind, first]
    dsimp only
    rw [run_bind, ih]
    rfl

theorem filterMapM_run_of_forall₂ {α β γ : Type} {f : α → Action (Option β)} {r : γ → β} {g : Graph}
    {l : List α} {m : List γ}
    (all : List.Forall₂ (fun x y => (f x).run g = (.ok (some (r y)), g)) l m) :
    (l.filterMapM f).run g = (.ok (m.map r), g) := by
  induction all with
  | nil => rfl
  | cons first _ ih =>
    rw [List.filterMapM_cons, run_bind, first]
    dsimp only
    rw [run_bind, ih]
    rfl

end Marshal.Action
