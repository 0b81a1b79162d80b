import Marshal.Action
import Mathlib.Data.List.Nodup

namespace Marshal

namespace Number

theorem equals_iff {x y : Number} :
    x.equals y = true ↔
      (x.isNaN = false ∧ y.isNaN = false) ∧ (x = y ∨ x.field = 0 ∧ y.field = 0) := by
  cases x
  cases y
  simp [equals]

theorem equals_of_equals {x y z : Number} (left : x.equals z = true) (right : y.equals z = true) :
    x.equals y = true := by
  rw [equals_iff] at *
  obtain ⟨⟨known, -⟩, alike⟩ := left
  obtain ⟨⟨known', -⟩, alike'⟩ := right
  refine ⟨⟨known, known'⟩, ?_⟩
  rcases alike with rfl | ⟨zero, zero'⟩ <;> rcases alike' with rfl | ⟨other, other'⟩
  · exact .inl rfl
  · exact .inr ⟨other', other⟩
  · exact .inr ⟨zero, zero'⟩
  · exact .inr ⟨zero, other⟩

end Number

namespace Value

theorem equals_cases {v w : Value} (h : v.equals w = true) :
    (∃ x y, v = .number x ∧ w = .number y ∧ x.equals y = true) ∨
      v = w ∧ ∀ x, v ≠ .number x := by
  unfold equals at h
  split at h
  next x y => exact .inl ⟨x, y, rfl, rfl, h⟩
  next apart =>
    obtain rfl := beq_iff_eq.1 h
    exact .inr ⟨rfl, fun x same => apart x x same same⟩

theorem equals_of_equals {u v w : Value} (left : u.equals w = true) (right : v.equals w = true) :
    u.equals v = true := by
  rcases equals_cases left with ⟨x, z, rfl, rfl, h⟩ | ⟨rfl, other⟩
  · rcases equals_cases right with ⟨y, _, rfl, ⟨⟩, h'⟩ | ⟨rfl, other'⟩
    · exact Number.equals_of_equals h h'
    · exact absurd rfl (other' z)
  · rcases equals_cases right with ⟨y, z, rfl, rfl, h'⟩ | ⟨rfl, -⟩
    · exact absurd rfl (other z)
    · exact left

theorem same_iff_of_text {v w : Value} (text : w.text?.isSome = true) :
    v.same w = true ↔ v = w := by
  cases w with
  | string | brokenText => cases v <;> simp [same]
  | _ => cases text

theorem equals_iff_of_text {v w : Value} (text : w.text?.isSome = true) :
    v.equals w = true ↔ v = w := by
  cases w with
  | string | brokenText => cases v <;> simp [equals]
  | _ => cases text

theorem pairwise_same_iff_nodup {names : List Value}
    (texts : ∀ name ∈ names, name.text?.isSome = true) :
    (names.Pairwise fun a b => a.same b = false) ↔ names.Nodup := by
  refine List.Pairwise.iff_of_mem fun _ mem => ?_
  rw [Bool.eq_false_iff, ne_eq, same_iff_of_text (texts _ mem)]

end Value

end Marshal
