import Marshal.Proofs.Number.Whole

namespace Marshal.Number

/-- The least whole number that is nearer to infinity than to the greatest finite number. A tie goes
to infinity. -/
def overflow : Nat := 2 ^ 1024 - 2 ^ 970

theorem roundQuotient_cases (num : Nat) {den : Nat} (positive : 0 < den) :
    ∃ q r, q * den + r = num ∧ r < den ∧ roundQuotient num den =
      if 2 * r < den then q else if den < 2 * r then q + 1 else q + q % 2 :=
  ⟨num / den, num % den, Nat.mul_comm (num / den) den ▸ Nat.div_add_mod num den,
    Nat.mod_lt num positive, rfl⟩

theorem roundQuotient_lt_iff {num den m : Nat} (positive : 0 < den) (even : m % 2 = 0) :
    roundQuotient num den < m ↔ 2 * num + den < 2 * (m * den) := by
  obtain ⟨q, r, split, below, rounded⟩ := roundQuotient_cases num positive
  rw [rounded]
  rcases Nat.lt_trichotomy m (q + 1) with less | rfl | more
  · have := Nat.mul_le_mul_right den (Nat.le_of_lt_succ less)
    split_ifs <;> omega
  · rw [Nat.add_mul, Nat.one_mul]
    split_ifs <;> omega
  · have := Nat.mul_le_mul_right den (show q + 2 ≤ m from more)
    rw [Nat.add_mul] at this
    split_ifs <;> omega

theorem roundQuotient_bounds {num den low high : Nat} (positive : 0 < den) (le : low * den ≤ num)
    (le' : num ≤ high * den) :
    low ≤ roundQuotient num den ∧ roundQuotient num den ≤ high := by
  obtain ⟨q, r, split, below, rounded⟩ := roundQuotient_cases num positive
  have lower : low < q + 1 := by
    refine Nat.lt_of_mul_lt_mul_right (a := den) ?_
    rw [Nat.add_mul]
    omega
  rw [rounded]
  rcases Nat.lt_or_ge q high with less | reached
  · split_ifs <;> omega
  · have := Nat.mul_le_mul_right den reached
    have : q = high := Nat.le_antisymm (Nat.le_of_mul_le_mul_right (by omega) positive) reached
    split_ifs <;> omega

/-- The field of a whole number that has 53 bits or more. -/
def largeField (n : Nat) : Nat :=
  (n.log2 + 1022) * hiddenBit + roundQuotient n (2 ^ (n.log2 - 52))

theorem ofNat_large {n : Nat} (large : 2 ^ 52 ≤ n) : ofNat n = ofField false (largeField n) := by
  have positive : n ≠ 0 := by omega
  have le : 52 ≤ n.log2 := (Nat.le_log2 positive).2 large
  have reached : 2 ^ n.log2 ≤ n := Nat.log2_self_le positive
  have low : Int.ofNat n.log2 - Int.ofNat (Nat.log2 1) - 1 + 1 = (n.log2 : Int) := by
    have one : (1 : Nat).log2 = 0 := by decide
    rw [one, Int.ofNat_eq_natCast, Int.ofNat_eq_natCast]
    omega
  have place : ((n.log2 : Int) - 52 + 1074).toNat = n.log2 + 1022 := by omega
  have shift : n.log2 + 1022 - 1074 = n.log2 - 52 ∧ 1074 - (n.log2 + 1022) = 0 := by omega
  unfold ofNat ofRatio
  rw [if_neg (by omega)]
  dsimp only
  rw [low, Int.toNat_natCast, Int.toNat_neg_natCast, if_neg (by simpa using reached), place,
    shift.1, shift.2]
  simp only [Nat.pow_eq, Nat.pow_zero, Nat.mul_one, Nat.one_mul, largeField]

theorem roundQuotient_large {n : Nat} (large : 2 ^ 52 ≤ n) :
    hiddenBit ≤ roundQuotient n (2 ^ (n.log2 - 52)) ∧
      roundQuotient n (2 ^ (n.log2 - 52)) ≤ 2 * hiddenBit := by
  have positive : n ≠ 0 := by omega
  have le : 52 ≤ n.log2 := (Nat.le_log2 positive).2 large
  have split : hiddenBit * 2 ^ (n.log2 - 52) = 2 ^ n.log2 := by
    rw [show hiddenBit = 2 ^ 52 from rfl, ← Nat.pow_add, Nat.add_sub_cancel' le]
  refine roundQuotient_bounds (Nat.pow_pos (by decide)) ?_ ?_
  · rw [split]
    exact Nat.log2_self_le positive
  · rw [Nat.mul_assoc, split, ← Nat.pow_succ']
    exact Nat.lt_log2_self.le

theorem isFinite_ofNat_iff (n : Nat) : (ofNat n).isFinite = true ↔ n < overflow := by
  have bound : 2 ^ 53 ≤ overflow := by decide +kernel
  rcases Nat.lt_or_ge n (2 ^ 52) with small | large
  · exact iff_of_true (isFinite_of_toInt? (toInt?_ofNat (by omega))) (by omega)
  · have positive : n ≠ 0 := by omega
    obtain ⟨low, high⟩ := roundQuotient_large large
    have reached : 2 ^ n.log2 ≤ n := Nat.log2_self_le positive
    have beyond : n < 2 ^ (n.log2 + 1) := Nat.lt_log2_self
    have least : (ofNat n).isFinite = true ↔ largeField n < infinityField := by
      rw [ofNat_large large, isFinite, field, toNat_bits_ofField, decide_eq_true_iff]
      unfold signBit infinityField hiddenBit
      simp only [Bool.false_eq_true, if_false]
      omega
    rw [least, largeField]
    have top : (2 : Nat) ^ 1024 = 2 ^ 54 * 2 ^ 970 := by rw [← Nat.pow_add]
    have top' : (2 : Nat) ^ 1023 = 2 ^ 53 * 2 ^ 970 := by rw [← Nat.pow_add]
    rcases Nat.lt_trichotomy n.log2 1023 with less | equal | more
    · have := Nat.pow_le_pow_right (n := 2) (by decide) less
      unfold overflow infinityField hiddenBit at *
      generalize (2 : Nat) ^ 970 = p at *
      omega
    · have unit : 2 ^ (n.log2 - 52) = 2 ^ 1 * 2 ^ 970 := by
        rw [← Nat.pow_add, show n.log2 - 52 = 1 + 970 by omega]
      have rounded := @roundQuotient_lt_iff n _ (2 * hiddenBit)
        (Nat.two_pow_pos (n.log2 - 52)) (by omega)
      rw [unit] at rounded ⊢
      rw [equal]
      unfold overflow infinityField hiddenBit at *
      generalize (2 : Nat) ^ 970 = p at *
      omega
    · have := Nat.pow_le_pow_right (n := 2) (by decide) (Nat.succ_le_of_lt more)
      unfold overflow infinityField hiddenBit at *
      generalize (2 : Nat) ^ 970 = p at *
      omega

theorem exists_toInt?_ofNat {n : Nat} (positive : 0 < n) (finite : (ofNat n).isFinite = true) :
    ∃ m : Nat, 0 < m ∧ (ofNat n).toInt? = some (m : Int) := by
  rcases Nat.lt_or_ge n (2 ^ 52) with small | large
  · exact ⟨n, positive, toInt?_ofNat (by omega)⟩
  · obtain ⟨low, -⟩ := roundQuotient_large large
    have reached := (Nat.le_log2 positive.ne').2 large
    have sign := isNegative_ofField false (largeField n)
    have below : largeField n < infinityField := by
      rw [ofNat_large large, isFinite, field, toNat_bits_ofField, decide_eq_true_iff] at finite
      unfold signBit infinityField hiddenBit at *
      simp only [Bool.false_eq_true, if_false] at finite
      omega
    have whole := field_ofField false below.le
    rw [← ofNat_large large] at sign whole
    -- with 53 bits before the point there is none after it
    have scale : 1074 ≤ (ofNat n).scale := by
      rw [scale, whole, largeField]
      unfold hiddenBit at *
      omega
    have significand : 0 < (ofNat n).significand := by
      rw [significand, whole, if_neg]
      · unfold hiddenBit
        omega
      · rw [largeField]
        unfold hiddenBit at *
        omega
    have den : (ofNat n).ratio.2 = 1 := by
      rw [ratio, Nat.sub_eq_zero_of_le scale]
    refine ⟨(ofNat n).ratio.1, Nat.mul_pos significand (Nat.pow_pos (by decide)), ?_⟩
    rw [toInt?, if_pos finite]
    dsimp only
    rw [den, Nat.mod_one, if_pos rfl, Nat.div_one, signed, sign]
    rfl

end Marshal.Number
