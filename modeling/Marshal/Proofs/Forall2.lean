import Mathlib.Data.List.Forall2

namespace Marshal

variable {α β : Type} {R S : α → β → Prop} {l l' : List α} {m : List β}

theorem forall₂_imp_of_mem (h : List.Forall₂ R l m) (step : ∀ a ∈ l, ∀ b, R a b → S a b) :
    List.Forall₂ S l m :=
  ((List.forall₂_and_left l m).2 ⟨step, h⟩).imp fun _ b both => both.1 b both.2

theorem exists_of_forall₂_right (h : List.Forall₂ R l m) {b : β} (mem : b ∈ m) :
    ∃ a ∈ l, R a b := by
  induction h with
  | nil => cases mem
  | cons first _ ih =>
    rcases List.mem_cons.1 mem with rfl | mem
    · exact ⟨_, List.mem_cons_self, first⟩
    · obtain ⟨a, mem', related⟩ := ih mem
      exact ⟨a, List.mem_cons_of_mem _ mem', related⟩

theorem exists_of_forall₂_left (h : List.Forall₂ R l m) {a : α} (mem : a ∈ l) : ∃ b ∈ m, R a b :=
  exists_of_forall₂_right (List.Forall₂.flip (R := flip R) h) mem

theorem eq_of_forall₂ (h : List.Forall₂ R l m) (h' : List.Forall₂ S l' m)
    (step : ∀ a ∈ l, ∀ a' b, R a b → S a' b → a = a') : l = l' := by
  induction h generalizing l' with
  | nil =>
    cases h'
    rfl
  | cons first _ ih =>
    cases h' with
    | cons first' rest' =>
      rw [step _ List.mem_cons_self _ _ first first',
        ih rest' fun a mem => step a (List.mem_cons_of_mem _ mem)]

theorem forall₂_comp {γ : Type} {T : β → γ → Prop} {n : List γ} (h : List.Forall₂ R l m)
    (h' : List.Forall₂ T m n) : List.Forall₂ (fun a c => ∃ b, R a b ∧ T b c) l n := by
  induction h generalizing n with
  | nil =>
    cases h'
    exact .nil
  | cons first _ ih =>
    cases h' with
    | cons first' rest' => exact .cons ⟨_, first, first'⟩ (ih rest')

end Marshal
