import Mathlib.Algebra.Order.Field.Rat
import Mathlib.Tactic.Linarith
import Mathlib.Tactic.Positivity
import Marshal.Number

namespace Marshal.Number

theorem ratio_snd_pos (x : Number) : 0 < x.ratio.2 := Nat.pow_pos (by decide)

theorem isNaN_of_isFinite {x : Number} (finite : x.isFinite = true) : x.isNaN = false := by
  simp only [isFinite, isNaN, decide_eq_true_eq, decide_eq_false_iff_not] at *
  omega

def value (x : Number) : ℚ := x.signed x.ratio.1 / x.ratio.2

theorem exceededBy_of_isFinite {x : Number} (finite : x.isFinite = true) (n : Nat) :
    x.exceededBy n = true ↔ x.isNegative = true ∧ x.ratio.1 ≠ 0 ∨ x.ratio.1 < n * x.ratio.2 := by
  simp only [exceededBy, isNaN_of_isFinite finite, finite, Bool.false_eq_true, if_false, if_true]
  split
  next negative => simp [negative]
  next => simp_all

theorem exceededBy_iff {x : Number} (finite : x.isFinite = true) (n : Nat) :
    x.exceededBy n = true ↔ x.value < n := by
  rw [exceededBy_of_isFinite finite, value, signed]
  have positive := x.ratio_snd_pos
  generalize x.ratio = ratio at *
  obtain ⟨num, den⟩ := ratio
  dsimp only at *
  have den_pos : (0 : ℚ) < den := by exact_mod_cast positive
  rw [div_lt_iff₀ den_pos]
  cases x.isNegative with
  | true =>
    have bound : (0 : ℚ) ≤ n * den := by positivity
    rcases Nat.eq_zero_or_pos num with rfl | num_pos
    · simp [positive]
    · have : (0 : ℚ) < num := by exact_mod_cast num_pos
      have : -(num : ℚ) < n * den := by linarith
      simp [this, num_pos.ne']
  | false =>
    simp
    exact_mod_cast Iff.rfl

end Marshal.Number
