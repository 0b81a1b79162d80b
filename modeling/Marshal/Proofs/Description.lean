import Mathlib.Data.Finset.Card
import Mathlib.Data.Finset.Range
import Marshal.Proofs.Tree

namespace Marshal

/-- A sort of things that values hold, in whichever objects: how a value that is written holds one,
and how a value that was read back does. The height is how far the objects are nested at most. -/
class Description (D : Type) where
  Held : Graph → D → Value → Prop
  Back : Graph → D → Value → Prop
  height : D → Nat
  height_pos : ∀ d, 0 < height d
  held_of_extends : ∀ {g k : Graph} {d : D} {v : Value}, g.Extends k → Held g d v → Held k d v
  back_of_extends : ∀ {g k : Graph} {d : D} {v : Value}, g.Extends k → Back g d v → Back k d v
  ref_lt : ∀ {g : Graph} {d : D} {ref : Ref}, Held g d (.object ref) → ref < g.size
  unique : ∀ {g : Graph} {d d' : D} {v : Value}, Held g d v → Held g d' v → d = d'

namespace Description

variable {D : Type} [Description D] {g : Graph} {d : D} {ref : Ref}

open Classical in
noncomputable def lower (D : Type) [Description D] (g : Graph) (n : Nat) : Finset Ref :=
  (Finset.range g.size).filter fun ref => ∃ d : D, Held g d (.object ref) ∧ height d ≤ n

theorem card_lower_lt (h : Held g d (.object ref)) {n : Nat} (lt : n < height d) :
    (lower D g n).card < (lower D g (height d)).card := by
  refine Finset.card_lt_card (Finset.ssubset_iff_subset_ne.2 ⟨?_, fun same => ?_⟩)
  · intro other mem
    simp only [lower, Finset.mem_filter] at mem ⊢
    obtain ⟨inside, d', held, le⟩ := mem
    exact ⟨inside, d', held, le.trans lt.le⟩
  · have mem : ref ∈ lower D g (height d) := by
      simp only [lower, Finset.mem_filter, Finset.mem_range]
      exact ⟨ref_lt h, d, h, le_rfl⟩
    rw [← same] at mem
    simp only [lower, Finset.mem_filter] at mem
    obtain ⟨-, d', held, le⟩ := mem
    rw [unique held h] at le
    exact Nat.not_lt.2 le lt

/-- Objects that are nested are different objects, so what an object holds is as high as there are
objects if that is so of its parts. -/
theorem height_le_card_of_parts (h : Held g d (.object ref)) (parts : List D)
    (inside : ∀ part ∈ parts, height part < height d)
    (high : ∀ n, (∀ part ∈ parts, height part ≤ n) → height d ≤ n + 3)
    (ih : ∀ part ∈ parts, height part ≤ 3 * (lower D g (height part)).card + 1) :
    height d ≤ 3 * (lower D g (height d)).card + 1 := by
  have inhabited := card_lower_lt h (height_pos d)
  have le := high (3 * ((lower D g (height d)).card - 1) + 1) fun part mem => by
    have fewer := card_lower_lt h (inside part mem)
    have := ih part mem
    omega
  omega

theorem height_le_size (h : height d ≤ 3 * (lower D g (height d)).card + 1) :
    height d ≤ 4 * g.size + 8 := by
  have objects : (lower D g (height d)).card ≤ g.size := by
    classical exact (Finset.card_filter_le _ _).trans (Finset.card_range g.size).le
  omega

end Description

end Marshal
