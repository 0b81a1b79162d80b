namespace Marshal

/-- Values by key, in the order in which the keys came. -/
abbrev Assoc (κ α : Type) := List (κ × α)

namespace Assoc

variable {κ α : Type} [BEq κ]

def find? (entries : Assoc κ α) (key : κ) : Option α := entries.lookup key

/-- A known key keeps its position. -/
def set (entries : Assoc κ α) (key : κ) (value : α) : Assoc κ α :=
  if entries.any (·.1 == key) then
    entries.map fun (k, old) => if k == key then (k, value) else (k, old)
  else entries ++ [(key, value)]

def erase (entries : Assoc κ α) (key : κ) : Assoc κ α := entries.filter fun (k, _) => !(k == key)

def keys (entries : Assoc κ α) : List κ := entries.map Prod.fst

def values (entries : Assoc κ α) : List α := entries.map Prod.snd

variable [LawfulBEq κ] [DecidableEq κ]

theorem find?_cons (k key : κ) (value : α) (rest : Assoc κ α) :
    find? ((k, value) :: rest) key = if key = k then some value else rest.find? key := by
  by_cases h : key = k
  · simp [find?, h]
  · simp [find?, List.lookup_cons, beq_eq_false_iff_ne.2 h, h]

theorem isSome_find? (entries : Assoc κ α) (key : κ) :
    (entries.find? key).isSome = entries.any (·.1 == key) := by
  induction entries with
  | nil => rfl
  | cons first rest ih =>
    obtain ⟨k, value⟩ := first
    rw [find?_cons, List.any_cons, ← ih]
    by_cases h : key = k
    · simp [h]
    · simp [h, Ne.symm h]

theorem find?_erase (entries : Assoc κ α) (erased key : κ) :
    (entries.erase erased).find? key = if key = erased then none else entries.find? key := by
  induction entries with
  | nil => simp [find?, erase]
  | cons first rest ih =>
    obtain ⟨k, value⟩ := first
    have step : erase ((k, value) :: rest) erased =
        if k = erased then Assoc.erase rest erased else (k, value) :: Assoc.erase rest erased := by
      by_cases h : k = erased <;> simp [erase, h]
    rw [step, find?_cons]
    split
    · rw [ih]; split <;> simp_all
    · rw [find?_cons, ih]; split <;> simp_all

theorem find?_replace (entries : Assoc κ α) (replaced key : κ) (value : α) :
    find? (entries.map fun (k, old) => if k == replaced then (k, value) else (k, old)) key =
      if key = replaced then (entries.find? key).map fun _ => value else entries.find? key := by
  induction entries with
  | nil => simp [find?]
  | cons first rest ih =>
    obtain ⟨k, old⟩ := first
    rw [List.map_cons, find?_cons, ← apply_ite (Prod.mk k), find?_cons, ih]
    by_cases h : key = k <;> by_cases hk : key = replaced <;> simp_all

theorem find?_set (entries : Assoc κ α) (changed key : κ) (value : α) :
    (entries.set changed value).find? key =
      if key = changed then some value else entries.find? key := by
  unfold set
  split
  next h =>
    rw [← isSome_find?, Option.isSome_iff_exists] at h
    obtain ⟨old, h⟩ := h
    rw [find?_replace]
    split <;> simp_all
  next h =>
    rw [← isSome_find?, Bool.not_eq_true, Option.isSome_eq_false_iff,
      Option.isNone_iff_eq_none] at h
    rw [find?] at h ⊢
    rw [List.lookup_append]
    by_cases hk : key = changed
    · simp [hk, h]
    · cases hl : List.lookup key entries <;> simp [find?, hl, hk]

theorem mem_keys_iff_isSome (entries : Assoc κ α) (key : κ) :
    key ∈ entries.keys ↔ (entries.find? key).isSome := by
  rw [isSome_find?, keys, List.mem_map, List.any_eq_true]
  simp only [beq_iff_eq]

theorem find?_of_notMem_keys {entries : Assoc κ α} {key : κ} (absent : key ∉ entries.keys) :
    entries.find? key = none := by
  rwa [mem_keys_iff_isSome, Option.not_isSome_iff_eq_none] at absent

theorem set_of_find?_eq_none {entries : Assoc κ α} {key : κ} (absent : entries.find? key = none)
    (value : α) : entries.set key value = entries ++ [(key, value)] := by
  rw [set, ← isSome_find?, absent]
  rfl

theorem find?_map_values {β : Type} (entries : Assoc κ α) (f : α → β) (key : κ) :
    find? (entries.map fun entry => (entry.1, f entry.2)) key = (entries.find? key).map f := by
  induction entries with
  | nil => rfl
  | cons first rest ih =>
    obtain ⟨k, value⟩ := first
    rw [List.map_cons, find?_cons, find?_cons, ih]
    split <;> rfl

theorem find?_eq_some_iff {entries : Assoc κ α} (distinct : entries.keys.Nodup) {key : κ}
    {value : α} : entries.find? key = some value ↔ (key, value) ∈ entries := by
  induction entries with
  | nil => simp [find?]
  | cons first rest ih =>
    obtain ⟨k, v⟩ := first
    simp only [keys, List.map_cons, List.nodup_cons] at distinct
    rw [find?_cons, List.mem_cons, Prod.mk.injEq, ← ih distinct.2]
    by_cases h : key = k
    · subst h
      have absent : Assoc.find? rest key = none := by
        rw [← Option.not_isSome_iff_eq_none, ← mem_keys_iff_isSome]
        exact distinct.1
      rw [absent]
      simp [eq_comm]
    · simp [h]

theorem keys_set (entries : Assoc κ α) (changed : κ) (value : α) :
    (entries.set changed value).keys =
      if changed ∈ entries.keys then entries.keys else entries.keys ++ [changed] := by
  have known : entries.any (·.1 == changed) = true ↔ changed ∈ entries.keys := by
    rw [mem_keys_iff_isSome, isSome_find?]
  unfold set
  by_cases h : changed ∈ entries.keys
  · rw [if_pos (known.2 h), if_pos h, keys, List.map_map]
    apply List.map_congr_left
    intro entry _
    by_cases hk : entry.1 = changed <;> simp [hk]
  · rw [if_neg (mt known.1 h), if_neg h]
    simp [keys]

theorem nodup_keys_set {entries : Assoc κ α} (distinct : entries.keys.Nodup) (changed : κ)
    (value : α) : (entries.set changed value).keys.Nodup := by
  rw [keys_set]
  split
  next h => exact distinct
  next h =>
    rw [List.nodup_append]
    refine ⟨distinct, by simp, ?_⟩
    intro a ha b hb
    rw [List.mem_singleton] at hb
    exact fun same => h (hb ▸ same ▸ ha)

omit [LawfulBEq κ] [DecidableEq κ] in
theorem nodup_keys_erase {entries : Assoc κ α} (distinct : entries.keys.Nodup) (erased : κ) :
    (entries.erase erased).keys.Nodup :=
  distinct.sublist (List.Sublist.map Prod.fst List.filter_sublist)

end Assoc

end Marshal
