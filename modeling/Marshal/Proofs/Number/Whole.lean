import Marshal.Proofs.Number

namespace Marshal.Number

theorem toNat_bits_ofField (negative : Bool) (field : Nat) :
    (ofField negative field).bits.toNat =
      (if negative then signBit else 0) + min field infinityField := by
  unfold ofField signBit infinityField hiddenBit
  dsimp only
  rw [UInt64.toNat_ofNat']
  cases negative
  · simp only [Bool.false_eq_true, if_false]
    omega
  · simp only [if_true]
    omega

theorem field_ofField (negative : Bool) {field : Nat} (le : field ≤ infinityField) :
    (ofField negative field).field = field := by
  rw [Number.field, toNat_bits_ofField, Nat.min_eq_left le]
  unfold signBit infinityField hiddenBit at *
  cases negative
  · simp only [Bool.false_eq_true, if_false]
    omega
  · simp only [if_true]
    omega

theorem isNegative_ofField (negative : Bool) (field : Nat) :
    (ofField negative field).isNegative = negative := by
  rw [isNegative, toNat_bits_ofField]
  unfold signBit infinityField hiddenBit
  cases negative
  · simp only [Bool.false_eq_true, if_false, decide_eq_false_iff_not]
    omega
  · simp

theorem ext_toNat {x y : Number} (same : x.bits.toNat = y.bits.toNat) : x = y := by
  cases x
  cases y
  exact congrArg Number.mk (UInt64.toNat_inj.1 same)

theorem ofField_field {x : Number} (le : x.field ≤ infinityField) :
    ofField x.isNegative x.field = x := by
  apply ext_toNat
  have size := x.bits.toNat_lt
  rw [toNat_bits_ofField, Nat.min_eq_left le, isNegative, field]
  unfold signBit
  by_cases sign : 0x8000000000000000 ≤ x.bits.toNat
  · simp only [sign, decide_true, if_true]
    omega
  · simp only [sign, decide_false, Bool.false_eq_true, if_false]
    omega

theorem roundQuotient_one (n : Nat) : roundQuotient n 1 = n := by
  simp [roundQuotient, Nat.mod_one]

/-- The field of a whole number below `2 ^ 53`: its significand is the number, moved up to 53
bits. -/
def wholeField (n : Nat) : Nat := (n.log2 + 1022) * hiddenBit + n * 2 ^ (52 - n.log2)

theorem log2_le {n : Nat} (small : n < 2 ^ 53) : n.log2 ≤ 52 := by
  rcases Nat.eq_zero_or_pos n with rfl | positive
  · simp
  · exact Nat.lt_succ_iff.1 ((Nat.log2_lt positive.ne').2 small)

theorem sub_place {l : Nat} (le : l ≤ 52) : 1074 - (l + 1022) = 52 - l ∧ l + 1022 - 1074 = 0 := by
  omega

theorem ofRatio_whole (negative : Bool) {n : Nat} (positive : 0 < n) (small : n < 2 ^ 53) :
    ofRatio negative n 1 = ofField negative (wholeField n) := by
  have le := log2_le small
  have reached : 2 ^ n.log2 ≤ n := Nat.log2_self_le positive.ne'
  have low : Int.ofNat n.log2 - Int.ofNat (Nat.log2 1) - 1 + 1 = (n.log2 : Int) := by
    have one : (1 : Nat).log2 = 0 := by decide
    rw [one, Int.ofNat_eq_natCast, Int.ofNat_eq_natCast]
    omega
  have place : ((n.log2 : Int) - 52 + 1074).toNat = n.log2 + 1022 := by omega
  unfold ofRatio
  rw [if_neg (by omega)]
  dsimp only
  rw [low, Int.toNat_natCast, Int.toNat_neg_natCast, if_neg (by simpa using reached), place,
    (sub_place le).1, (sub_place le).2]
  simp only [Nat.pow_eq, Nat.pow_zero, Nat.mul_one, roundQuotient_one, wholeField]

/-- The significand of a whole number has all of its 53 bits. -/
theorem mul_two_pow_log2 {n : Nat} (positive : 0 < n) (small : n < 2 ^ 53) :
    hiddenBit ≤ n * 2 ^ (52 - n.log2) ∧ n * 2 ^ (52 - n.log2) < 2 * hiddenBit := by
  have le := log2_le small
  have reached : 2 ^ n.log2 ≤ n := Nat.log2_self_le positive.ne'
  have beyond : n < 2 ^ (n.log2 + 1) := Nat.lt_log2_self
  have split : 2 ^ n.log2 * 2 ^ (52 - n.log2) = hiddenBit := by
    rw [← Nat.pow_add, Nat.add_sub_cancel' le]
    rfl
  constructor
  · rw [← split]
    exact Nat.mul_le_mul_right _ reached
  · rw [← split, ← Nat.mul_assoc, ← Nat.pow_succ']
    exact Nat.mul_lt_mul_of_pos_right beyond (Nat.pow_pos (by decide))

theorem wholeField_le {n : Nat} (positive : 0 < n) (small : n < 2 ^ 53) :
    wholeField n < infinityField := by
  have le := log2_le small
  have bounds := mul_two_pow_log2 positive small
  unfold wholeField
  generalize n * 2 ^ (52 - n.log2) = significand at *
  unfold infinityField hiddenBit at *
  omega

theorem scale_of_wholeField {n : Nat} (positive : 0 < n) (small : n < 2 ^ 53) {x : Number}
    (whole : x.field = wholeField n) :
    x.scale = n.log2 + 1022 ∧ x.significand = n * 2 ^ (52 - n.log2) := by
  have le := log2_le small
  have bounds := mul_two_pow_log2 positive small
  rw [scale, significand, whole, wholeField]
  generalize n * 2 ^ (52 - n.log2) = significand at *
  unfold hiddenBit at *
  rw [if_neg (by omega)]
  omega

theorem ratio_of_wholeField {n : Nat} (positive : 0 < n) (small : n < 2 ^ 53) {x : Number}
    (whole : x.field = wholeField n) : x.ratio = (n * 2 ^ (52 - n.log2), 2 ^ (52 - n.log2)) := by
  have le := log2_le small
  obtain ⟨scale, significand⟩ := scale_of_wholeField positive small whole
  rw [ratio, scale, significand, (sub_place le).1, (sub_place le).2]
  simp only [Nat.pow_eq, Nat.pow_zero, Nat.mul_one]

theorem signed_natAbs (n : Int) : ∀ x : Number, x.isNegative = decide (n < 0) →
    x.signed n.natAbs = n := by
  intro x sign
  rw [signed, sign]
  by_cases negative : n < 0
  · simp only [negative, decide_true, if_true, Int.ofNat_eq_natCast]
    omega
  · simp only [negative, decide_false, Bool.false_eq_true, if_false, Int.ofNat_eq_natCast]
    omega

theorem ofInt_eq {n : Int} (other : n ≠ 0) (small : n.natAbs < 2 ^ 53) :
    ofInt n = ofField (decide (n < 0)) (wholeField n.natAbs) := by
  have positive : 0 < n.natAbs := Int.natAbs_pos.2 other
  unfold ofInt
  split
  next negative => rw [ofRatio_whole true positive small, decide_eq_true negative]
  next negative => rw [ofRatio_whole false positive small, decide_eq_false negative]

theorem ofInt_natCast (n : Nat) : ofInt n = ofNat n := by
  rw [ofInt, if_neg (by omega), Int.natAbs_natCast]
  rfl

theorem toInt?_ofInt {n : Int} (small : n.natAbs < 2 ^ 53) : (ofInt n).toInt? = some n := by
  by_cases zero : n = 0
  · rw [zero]
    decide +kernel
  · have positive : 0 < n.natAbs := Int.natAbs_pos.2 zero
    have bound := wholeField_le positive small
    have sign := isNegative_ofField (decide (n < 0)) (wholeField n.natAbs)
    have whole := field_ofField (decide (n < 0)) bound.le
    rw [ofInt_eq zero small]
    generalize ofField (decide (n < 0)) (wholeField n.natAbs) = x at *
    rw [toInt?, isFinite, whole, decide_eq_true bound, if_pos rfl,
      ratio_of_wholeField positive small whole]
    dsimp only
    rw [if_pos (Nat.mul_mod_left _ _), Nat.mul_div_cancel _ (Nat.pow_pos (by decide)),
      signed_natAbs n x sign]

theorem toInt?_ofNat {n : Nat} (small : n < 2 ^ 53) : (ofNat n).toInt? = some (n : Int) := by
  rw [← ofInt_natCast]
  exact toInt?_ofInt (by simpa using small)

theorem wholeField_eq {m scale significand : Nat} (le : scale ≤ 1074)
    (low : hiddenBit ≤ significand) (high : significand < 2 * hiddenBit) (positive : 0 < m)
    (same : significand = m * 2 ^ (1074 - scale)) :
    wholeField m = scale * hiddenBit + significand := by
  have split : 2 ^ 52 = hiddenBit := rfl
  have room : 1074 - scale ≤ 52 := by
    have reached : 2 ^ (1074 - scale) < 2 ^ 53 := by
      have := Nat.le_mul_of_pos_left (2 ^ (1074 - scale)) positive
      omega
    have := (Nat.pow_lt_pow_iff_right (by decide)).1 reached
    omega
  have log : m.log2 = 52 - (1074 - scale) := by
    have lower : 2 ^ (52 - (1074 - scale)) * 2 ^ (1074 - scale) = 2 ^ 52 := by
      rw [← Nat.pow_add, Nat.sub_add_cancel room]
    rw [Nat.log2_eq_iff positive.ne']
    constructor
    · refine Nat.le_of_mul_le_mul_right ?_ (Nat.pow_pos (n := 1074 - scale) (by decide : 0 < 2))
      rw [lower, ← same, split]
      exact low
    · refine Nat.lt_of_mul_lt_mul_right (a := 2 ^ (1074 - scale)) ?_
      rw [Nat.pow_succ, Nat.mul_right_comm, lower, ← same, split]
      omega
  have exponent : 52 - (1074 - scale) + 1022 = scale := by omega
  have shift : 52 - (52 - (1074 - scale)) = 1074 - scale := by omega
  rw [wholeField, log, exponent, shift, ← same]

/-- The field is the scale with the significand on top, but for numbers too small to have all 53
bits. -/
theorem field_of_normal {x : Number} (normal : hiddenBit ≤ x.field) :
    x.field = x.scale * hiddenBit + x.significand ∧ hiddenBit ≤ x.significand ∧
      x.significand < 2 * hiddenBit := by
  rw [scale, significand, if_neg (Nat.not_lt.2 normal)]
  unfold hiddenBit at *
  omega

theorem field_of_whole {x : Number} {m : Nat} (positive : 0 < m) (small : m < 2 ^ 53)
    (exact : x.significand * 2 ^ (x.scale - 1074) = m * 2 ^ (1074 - x.scale)) :
    x.field = wholeField m := by
  by_cases normal : hiddenBit ≤ x.field
  · obtain ⟨field, low, high⟩ := field_of_normal normal
    have split : 2 ^ 52 = hiddenBit := rfl
    have le : x.scale ≤ 1074 := by
      by_contra beyond
      have down : 1074 - x.scale = 0 := by omega
      have double : 2 ^ 1 ≤ 2 ^ (x.scale - 1074) := Nat.pow_le_pow_right (by decide) (by omega)
      have := Nat.mul_le_mul low double
      rw [exact, down] at this
      omega
    have up : x.scale - 1074 = 0 := by omega
    rw [up, Nat.pow_zero, Nat.mul_one] at exact
    rw [field, wholeField_eq le low high positive exact]
  · -- a number with fewer than 53 bits is far below one
    have scale : x.scale = 0 := by
      rw [Number.scale, Nat.div_eq_of_lt (Nat.not_le.1 normal)]
    have significand : x.significand < 2 ^ 52 := by
      rw [Number.significand, if_pos (Nat.not_le.1 normal)]
      exact Nat.mod_lt _ (by decide)
    have room : 52 ≤ 1074 - x.scale := by omega
    have tiny : 2 ^ 52 ≤ 2 ^ (1074 - x.scale) := Nat.pow_le_pow_right (by decide) room
    have huge := Nat.le_mul_of_pos_left (2 ^ (1074 - x.scale)) positive
    generalize 2 ^ (1074 - x.scale) = bound at *
    rw [scale, Nat.zero_sub, Nat.pow_zero] at exact
    omega

theorem field_of_toInt? {x : Number} {n : Int} (whole : x.toInt? = some n) (other : n ≠ 0)
    (small : n.natAbs < 2 ^ 53) :
    x.field = wholeField n.natAbs ∧ x.isNegative = decide (n < 0) := by
  unfold toInt? at whole
  split at whole
  next finite =>
    dsimp only at whole
    split at whole
    next divides =>
      have den_pos := x.ratio_snd_pos
      have exact : x.ratio.1 = x.ratio.1 / x.ratio.2 * x.ratio.2 :=
        (Nat.div_mul_cancel (Nat.dvd_of_mod_eq_zero divides)).symm
      have value := Option.some.inj whole
      generalize x.ratio.1 / x.ratio.2 = m at exact value
      rw [ratio] at exact
      have magnitude : n.natAbs = m := by
        rw [← value, signed]
        split <;> simp
      have positive : 0 < m := by omega
      constructor
      · rw [magnitude] at small ⊢
        exact field_of_whole positive small exact
      · rw [← value, signed]
        cases x.isNegative with
        | true => simpa using positive
        | false => simp
    next => cases whole
  next => cases whole

theorem ofInt_of_toInt? {x : Number} {n : Int} (whole : x.toInt? = some n) (other : n ≠ 0)
    (small : n.natAbs < 2 ^ 53) : ofInt n = x := by
  obtain ⟨field, sign⟩ := field_of_toInt? whole other small
  have bound := wholeField_le (Int.natAbs_pos.2 other) small
  rw [ofInt_eq other small, ← field, ← sign]
  exact ofField_field (by omega)

theorem field_of_toInt?_zero {x : Number} (whole : x.toInt? = some 0) : x.field = 0 := by
  unfold toInt? at whole
  split at whole
  next finite =>
    dsimp only at whole
    split at whole
    next divides =>
      have none : x.ratio.1 / x.ratio.2 = 0 := by
        have value := Option.some.inj whole
        rw [signed] at value
        split at value <;> simp only [Int.ofNat_eq_natCast] at value <;> omega
      have zero : x.ratio.1 = 0 := by
        have := Nat.div_add_mod x.ratio.1 x.ratio.2
        rw [none, divides] at this
        omega
      -- only the significand can be zero: a power of two is not
      rw [ratio, Nat.mul_eq_zero] at zero
      rcases zero with significand | power
      · by_cases normal : hiddenBit ≤ x.field
        · have := (field_of_normal normal).2.1
          rw [significand] at this
          cases this
        · rw [Number.significand, if_pos (Nat.not_le.1 normal),
            Nat.mod_eq_of_lt (Nat.not_le.1 normal)] at significand
          exact significand
      · exact absurd power (Nat.pow_pos (by decide)).ne'
    next => cases whole
  next => cases whole

theorem isFinite_of_toInt? {x : Number} {n : Int} (whole : x.toInt? = some n) :
    x.isFinite = true := by
  unfold toInt? at whole
  split at whole
  next finite => exact finite
  next => cases whole

theorem eq_zero_of_toInt? {x : Number} (whole : x.toInt? = some 0)
    (positive : x.isNegativeZero = false) : x = zero := by
  have field := field_of_toInt?_zero whole
  rw [← ofField_field (x := x) (by omega), field]
  cases sign : x.isNegative with
  | false => decide
  | true =>
    have same : x = ofField true 0 := by rw [← sign, ← field, ofField_field (by omega)]
    rw [same] at positive
    revert positive
    decide

theorem toInt?_of_isNegativeZero {x : Number} (zero : x.isNegativeZero = true) :
    x.toInt? = some 0 := by
  have same : x = ofField true 0 := by
    apply ext_toNat
    rw [isNegativeZero, beq_iff_eq] at zero
    rw [zero, toNat_bits_ofField]
    rfl
  rw [same]
  decide +kernel

theorem eq_of_equals_ofNat {m n : Nat} (small : m < 2 ^ 53) (small' : n < 2 ^ 53)
    (equal : (ofNat m).equals (ofNat n) = true) : m = n := by
  have empty {n : Nat} (small : n < 2 ^ 53) (none : (ofNat n).field = 0) : n = 0 := by
    by_contra other
    have positive := Nat.pos_of_ne_zero other
    have whole := toInt?_ofNat small
    have field := (field_of_toInt? whole (by simpa using other) (by simpa using small)).1
    have bounds := (mul_two_pow_log2 positive small).1
    rw [none, wholeField, Int.natAbs_natCast] at field
    unfold hiddenBit at *
    omega
  simp only [equals, Bool.and_eq_true, Bool.or_eq_true, beq_iff_eq] at equal
  rcases equal.2 with bits | ⟨left, right⟩
  · have same : ofNat m = ofNat n := congrArg Number.mk bits
    have values := toInt?_ofNat small
    rw [same, toInt?_ofNat small', Option.some.injEq] at values
    omega
  · rw [empty small left, empty small' right]

end Marshal.Number
