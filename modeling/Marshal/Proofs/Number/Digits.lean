import Marshal.Number.Decimal
import Marshal.Proofs.Number.Whole

namespace Marshal.Number

section Digits

theorem digitsOf_mul_pow {m : Nat} (positive : 0 < m) (p : Nat) :
    digitsOf (m * 10 ^ p) = digitsOf m ++ zeros p := by
  induction p with
  | zero => simp [zeros]
  | succ p ih =>
    have shifted : m * 10 ^ (p + 1) = 10 * (m * 10 ^ p) + 0 := by
      rw [Nat.pow_succ, ← Nat.mul_assoc, Nat.mul_comm, Nat.add_zero]
    rw [shifted, digitsOf, ← Nat.toDigits_append_toDigits (by decide)
      (Nat.mul_pos positive (Nat.pow_pos (by decide))) (by decide)]
    change digitsOf (m * 10 ^ p) ++ ['0'] = _
    rw [ih, List.append_assoc, zeros, zeros, List.replicate_succ']

theorem dropTrailingZeros_append (ds : List Char) :
    dropTrailingZeros ds ++ zeros (ds.length - (dropTrailingZeros ds).length) = ds := by
  have split := List.takeWhile_append_dropWhile (p := (· == '0')) (l := ds.reverse)
  have dropped : dropTrailingZeros ds ++ (ds.reverse.takeWhile (· == '0')).reverse = ds := by
    rw [dropTrailingZeros, ← List.reverse_append, split, List.reverse_reverse]
  have all : (ds.reverse.takeWhile (· == '0')).reverse =
      zeros (ds.reverse.takeWhile (· == '0')).length := by
    rw [zeros, List.eq_replicate_iff, List.length_reverse]
    refine ⟨rfl, fun c mem => ?_⟩
    exact eq_of_beq (List.all_eq_true.1 List.all_takeWhile c (List.mem_reverse.1 mem))
  have length := congrArg List.length dropped
  rw [List.length_append, List.length_reverse] at length
  conv_rhs => rw [← dropped, all]
  rw [← length, Nat.add_sub_cancel_left]

end Digits

/-- What reads back as a whole number is less than one away from it: the interval is on a grid of
quarters or less and goes two steps to either side at most. -/
structure Rounding.IsWhole (r : Rounding) (n : Nat) : Prop where
  gridNum : r.gridNum = 1
  fine : 4 ≤ r.gridDen
  centre : r.centre = n * r.gridDen
  low : r.low < r.centre ∧ r.centre ≤ r.low + 2
  high : r.high = r.centre + 2

namespace Rounding.IsWhole

variable {r : Rounding} {n : Nat}

theorem drop_eq (h : r.IsWhole n) (g p : Nat) : r.drop g p = g := by
  rw [drop, h.gridNum, Int.toNat_neg_natCast]
  exact (Nat.mul_one _).trans (Nat.mul_one _)

theorem holds_iff (h : r.IsWhole n) (k p : Nat) : r.holds k p = true ↔ k * 10 ^ p = n := by
  have low := h.low
  have high := h.high
  have lifted : r.lift k p = k * 10 ^ p * r.gridDen := by
    rw [lift, Int.toNat_natCast]
    rfl
  have holds : r.holds k p = true ↔ r.low ≤ k * 10 ^ p * r.gridDen ∧
      k * 10 ^ p * r.gridDen ≤ r.high ∧
      (r.closed = false → r.low < k * 10 ^ p * r.gridDen ∧ k * 10 ^ p * r.gridDen < r.high) := by
    rw [Rounding.holds, lifted, h.drop_eq, h.drop_eq]
    cases r.closed
    · simp
      omega
    · simp
  rw [holds]
  constructor
  · rintro ⟨above, below, -⟩
    have fine := h.fine
    have centre := h.centre
    rcases Nat.lt_trichotomy (k * 10 ^ p) n with less | same | more
    · have := Nat.mul_le_mul_right r.gridDen (Nat.succ_le_of_lt less)
      rw [Nat.succ_mul] at this
      omega
    · exact same
    · have := Nat.mul_le_mul_right r.gridDen (Nat.succ_le_of_lt more)
      rw [Nat.succ_mul] at this
      omega
  · intro same
    rw [same, ← h.centre]
    omega

theorem neighbour?_eq (h : r.IsWhole n) (positive : 0 < n) (p : Nat) :
    r.neighbour? p = if n % 10 ^ p = 0 then some (n / 10 ^ p) else none := by
  have grid : 0 < r.gridDen := by have := h.fine; omega
  have below : r.drop r.centre p / (Nat.pow 10 (p : Int).toNat * r.gridDen) = n / 10 ^ p := by
    rw [h.drop_eq, h.centre, Int.toNat_natCast]
    exact Nat.mul_div_mul_right _ _ grid
  have split := Nat.div_add_mod n (10 ^ p)
  have less := Nat.mod_lt n (Nat.pow_pos (n := p) (by decide : 0 < 10))
  have above : r.holds (n / 10 ^ p + 1) p = false := by
    rw [Bool.eq_false_iff, ne_eq, h.holds_iff, Nat.add_mul, Nat.mul_comm]
    omega
  rw [neighbour?, below, above]
  by_cases divides : n % 10 ^ p = 0
  · have exact' : n / 10 ^ p * 10 ^ p = n := by rw [Nat.mul_comm]; omega
    have other : (n / 10 ^ p != 0) = true := by
      rw [bne_iff_ne]
      intro zero
      rw [zero] at exact'
      omega
    rw [if_pos divides, (h.holds_iff _ _).2 exact', other]
    rfl
  · have wrong : r.holds (n / 10 ^ p) p = false := by
      rw [Bool.eq_false_iff, ne_eq, h.holds_iff, Nat.mul_comm]
      omega
    rw [if_neg divides, wrong]
    rfl

theorem exists_shortestFrom_eq (h : r.IsWhole n) (positive : 0 < n) {tried left : Nat}
    (room : tried < (digitsOf n).length) (enough : (digitsOf n).length ≤ tried + left) :
    ∃ m p, m * 10 ^ p = n ∧ shortestFrom r (digitsOf n).length tried left =
      ⟨dropTrailingZeros (digitsOf m), (digitsOf n).length⟩ := by
  induction left generalizing tried with
  | zero => omega
  | succ left ih =>
    have place : ((digitsOf n).length : Int) - (tried + 1) =
        ((digitsOf n).length - (tried + 1) : Nat) := by omega
    rw [shortestFrom, place, h.neighbour?_eq positive]
    generalize rest : (digitsOf n).length - (tried + 1) = p
    by_cases divides : n % 10 ^ p = 0
    · have whole : n / 10 ^ p * 10 ^ p = n := Nat.div_mul_cancel (Nat.dvd_of_mod_eq_zero divides)
      have some : 0 < n / 10 ^ p := by
        refine Nat.pos_of_ne_zero fun zero => ?_
        rw [zero] at whole
        omega
      have length : (digitsOf n).length = (digitsOf (n / 10 ^ p)).length + p := by
        conv_lhs => rw [← whole, digitsOf_mul_pow some, List.length_append, zeros,
          List.length_replicate]
      refine ⟨n / 10 ^ p, p, whole, ?_⟩
      rw [if_pos divides]
      dsimp only
      rw [Decimal.mk.injEq]
      refine ⟨rfl, ?_⟩
      rw [Int.ofNat_eq_natCast]
      omega
    · rw [if_neg divides]
      have more : p ≠ 0 := by
        rintro rfl
        exact divides (Nat.mod_one n)
      exact ih (by omega) (by omega)

end Rounding.IsWhole

section Text

variable {x : Number} {n : Nat}

theorem isWhole_ofNumber (positive : 0 < n) (small : n < 2 ^ 53) (whole : x.field = wholeField n) :
    (Rounding.ofNumber x).IsWhole n := by
  have le := log2_le small
  obtain ⟨scale, significand⟩ := scale_of_wholeField positive small whole
  have bounds := mul_two_pow_log2 positive small
  have unit : x.scale - 1076 = 0 := by omega
  have quarters : 2 ^ (1076 - x.scale) = 4 * 2 ^ (52 - n.log2) := by
    rw [show 1076 - x.scale = 2 + (52 - n.log2) by omega, Nat.pow_add]
  refine ⟨?_, ?_, ?_, ?_, ?_⟩
  · rw [Rounding.ofNumber, unit]
  · rw [Rounding.ofNumber]
    change 4 ≤ 2 ^ (1076 - x.scale)
    have := Nat.two_pow_pos (52 - n.log2)
    omega
  · rw [Rounding.ofNumber]
    change 4 * x.significand = n * 2 ^ (1076 - x.scale)
    rw [significand, quarters, Nat.mul_left_comm]
  · rw [Rounding.ofNumber]
    dsimp only
    unfold hiddenBit at bounds
    split <;> omega
  · rfl

theorem length_digitsOf_div {num den : Nat} (positive : 0 < n) (den_pos : 0 < den)
    (same : num = n * den) (p : Nat) :
    (digitsOf (num * Nat.pow 10 p / den)).length = (digitsOf n).length + p := by
  rw [same, Nat.pow_eq, Nat.mul_right_comm, Nat.mul_div_cancel _ den_pos,
    digitsOf_mul_pow positive, List.length_append, zeros, List.length_replicate]

theorem shortest_text_eq (positive : 0 < n) (small : n < 2 ^ 53) (whole : x.field = wholeField n) :
    x.shortest.text = digitsOf n := by
  have length : (digitsOf n).length ≤ 16 :=
    (Nat.length_toDigits_le_iff (by decide) (by decide)).2 (small.trans (by decide))
  have some : 0 < (digitsOf n).length := Nat.length_toDigits_pos
  obtain ⟨m, p, split, found⟩ := (isWhole_ofNumber positive small whole).exists_shortestFrom_eq
    positive some (show (digitsOf n).length ≤ 0 + 17 by omega)
  have place : decimalPlace x.ratio.1 x.ratio.2 = (digitsOf n).length := by
    rw [ratio_of_wholeField positive small whole, decimalPlace]
    dsimp only
    generalize lifted : 400 = p
    rw [length_digitsOf_div positive (Nat.two_pow_pos (52 - n.log2)) rfl p, Int.ofNat_eq_natCast]
    omega
  have lead : 0 < m := by
    refine Nat.pos_of_ne_zero fun zero => ?_
    rw [zero] at split
    omega
  have digits : digitsOf n = digitsOf m ++ zeros p := by rw [← split, digitsOf_mul_pow lead]
  have kept := dropTrailingZeros_append (digitsOf m)
  have fewer := congrArg List.length kept
  have total := congrArg List.length digits
  rw [List.length_append, zeros, List.length_replicate] at fewer total
  rw [shortest]
  dsimp only
  rw [place, found, Decimal.text]
  dsimp only
  rw [if_pos (by omega), Int.toNat_natCast, if_pos (by omega)]
  have fill : (digitsOf n).length - (dropTrailingZeros (digitsOf m)).length =
      (digitsOf m).length - (dropTrailingZeros (digitsOf m)).length + p := by omega
  rw [fill, zeros, List.replicate_add, ← List.append_assoc]
  exact (congrArg (· ++ zeros p) kept).trans digits.symm

theorem safeInt?_eq_some_iff {x : Number} {n : Int} :
    x.safeInt? = some n ↔
      x.toInt? = some n ∧ n.natAbs < 2 ^ 53 ∧ ¬ (n = 0 ∧ x.isNegative = true) := by
  rw [safeInt?]
  split
  next m whole =>
    rw [whole]
    split_ifs with safe
    · constructor
      · rintro ⟨⟩
        exact ⟨rfl, safe⟩
      · exact fun h => h.1
    · refine iff_of_false (nomatch ·) ?_
      rintro ⟨⟨⟩, h⟩
      exact safe h
  next none => simp [none]

theorem text_of_safeInt? {x : Number} {n : Int} (safe : x.safeInt? = some n) :
    x.text = toString n := by
  obtain ⟨whole, small, signed⟩ := safeInt?_eq_some_iff.1 safe
  have finite := isFinite_of_toInt? whole
  rw [text, isNaN_of_isFinite finite, finite, if_neg Bool.false_ne_true, Bool.not_true,
    if_neg Bool.false_ne_true]
  by_cases zero : n = 0
  · subst zero
    rw [if_pos (field_of_toInt?_zero whole)]
    rfl
  · obtain ⟨field, sign⟩ := field_of_toInt? whole zero small
    have positive : 0 < n.natAbs := Int.natAbs_pos.2 zero
    have bits := mul_two_pow_log2 positive small
    have other : x.field ≠ 0 := by
      rw [field, wholeField]
      unfold hiddenBit at *
      omega
    rw [if_neg other, shortest_text_eq positive small field, sign]
    cases n with
    | ofNat n =>
      rw [decide_eq_false (by simp), if_neg Bool.false_ne_true]
      rfl
    | negSucc n =>
      rw [decide_eq_true (Int.negSucc_lt_zero n), if_pos rfl]
      rfl

theorem text_ofNat {n : Nat} (small : n < 2 ^ 53) : (ofNat n).text = toString n := by
  refine text_of_safeInt? (n := n) (safeInt?_eq_some_iff.2
    ⟨toInt?_ofNat small, by simpa using small, ?_⟩)
  rintro ⟨-, negative⟩
  unfold ofNat ofRatio at negative
  split at negative <;> rw [isNegative_ofField] at negative <;> cases negative

end Text

end Marshal.Number
