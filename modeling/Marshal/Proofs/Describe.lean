import Marshal.Collect
import Marshal.Proofs.Action
import Marshal.Proofs.Number.Whole

namespace Marshal

namespace Text

theorem digitValue?_of_isDigit {c : Char} (digit : c.isDigit = true) :
    digitValue? 10 c = some (c.toNat - '0'.toNat) := by
  have bounds : 48 ≤ c.toNat ∧ c.toNat ≤ 57 := by
    simpa [Char.isDigit, UInt32.le_iff_toNat_le] using digit
  have rank : digitRank c = c.toNat - 48 := if_pos digit
  rw [digitValue?, rank, if_pos (by omega)]
  rfl

theorem natInBase?_of_isDigit {ds : List Char} (digits : ∀ c ∈ ds, c.isDigit = true) :
    natInBase? 10 ds = some (natOfDigits ds) := by
  suffices ∀ acc, ds.foldlM (fun n c => (digitValue? 10 c).map (10 * n + ·)) acc =
      some (Nat.ofDigitChars 10 ds acc) from this 0
  induction ds with
  | nil => exact fun _ => rfl
  | cons c rest ih =>
    intro acc
    rw [List.foldlM_cons, digitValue?_of_isDigit (digits c List.mem_cons_self),
      Nat.ofDigitChars_cons]
    exact ih (fun d mem => digits d (List.mem_cons_of_mem c mem)) _

theorem isBlank_eq_false_of_isDigit {c : Char} (digit : c.isDigit = true) :
    isBlank c = false := by
  have bounds : 48 ≤ c.toNat ∧ c.toNat ≤ 57 := by
    simpa [Char.isDigit, UInt32.le_iff_toNat_le] using digit
  rw [isBlank]
  simp only [Bool.or_eq_false_iff, Bool.and_eq_false_iff, decide_eq_false_iff_not]
  omega

theorem trim_eq_self {cs : List Char} {first last : Char} (start : cs.head? = some first)
    (stop : cs.getLast? = some last) (left : isBlank first = false) (right : isBlank last = false) :
    trim cs = cs := by
  have kept : ∀ {ds : List Char} {c : Char}, ds.head? = some c → isBlank c = false →
      trimLeft ds = ds := by
    intro ds c start other
    obtain ⟨rest, rfl⟩ := List.head?_eq_some_iff.1 start
    rw [trimLeft, List.dropWhile_cons, other, if_neg Bool.false_ne_true]
  have back : cs.reverse.head? = some last := by rw [List.head?_reverse, stop]
  rw [trim, kept start left, kept back right, List.reverse_reverse]

theorem span_isDigit {digits rest : List Char} (decimal : ∀ c ∈ digits, c.isDigit = true)
    (ends : ∀ c ∈ rest.head?, c.isDigit = false) :
    (digits ++ rest).takeWhile Char.isDigit = digits ∧
      (digits ++ rest).dropWhile Char.isDigit = rest := by
  rw [List.takeWhile_append_of_pos decimal, List.dropWhile_append_of_pos decimal]
  cases rest with
  | nil => exact ⟨List.append_nil _, rfl⟩
  | cons c cs =>
    have other : ¬ c.isDigit = true := Bool.eq_false_iff.1 (ends c rfl)
    rw [List.takeWhile_cons_of_neg other, List.dropWhile_cons_of_neg other]
    exact ⟨List.append_nil _, rfl⟩

end Text

theorem wholeNumber?_of_isDigit {s : String} (spelled : s.toList ≠ [])
    (digits : ∀ c ∈ s.toList, c.isDigit = true) :
    wholeNumber? s = some (Text.natOfDigits s.toList) := by
  have blank : ∀ c ∈ s.toList, Text.isBlank c = false :=
    fun c mem => Text.isBlank_eq_false_of_isDigit (digits c mem)
  have trimmed : Text.trim s.toList = s.toList :=
    Text.trim_eq_self (List.head?_eq_some_head spelled) (List.getLast?_eq_some_getLast spelled)
      (blank _ (List.head_mem spelled)) (blank _ (List.getLast_mem spelled))
  rw [wholeNumber?, trimmed]
  -- no digit is the letter of a base or a sign
  have other : ∀ c, c.isDigit = false → c ∉ s.toList := by
    intro c no mem
    rw [digits c mem] at no
    cases no
  dsimp only
  split
  case h_1 none => exact absurd none spelled
  case h_2 same | h_3 same | h_4 same | h_5 same | h_6 same | h_7 same =>
    exact absurd (same ▸ List.mem_cons_of_mem _ List.mem_cons_self) (other _ (by decide))
  case h_8 same | h_9 same => exact absurd (same ▸ List.mem_cons_self) (other _ (by decide))
  case h_10 =>
    rw [List.isEmpty_eq_false_iff.2 spelled, if_neg Bool.false_ne_true,
      Text.natInBase?_of_isDigit digits]
    rfl

theorem wholeNumber?_toString (n : Int) : wholeNumber? (toString n) = some n := by
  cases n with
  | ofNat n =>
    have spelled : (toString (Int.ofNat n)).toList = Nat.toDigits 10 n := Nat.toList_repr
    rw [wholeNumber?_of_isDigit, spelled, Text.natOfDigits_toDigits]
    · rfl
    · rw [spelled]
      exact Nat.toDigits_ne_nil
    · rw [spelled]
      exact fun c => Nat.isDigit_of_mem_toDigits (by decide) (by decide)
  | negSucc n =>
    have spelled : (toString (Int.negSucc n)).toList = '-' :: Nat.toDigits 10 (n + 1) := by
      change ("-" ++ (n + 1).repr).toList = _
      rw [String.toList_append, Nat.toList_repr]
      rfl
    have digits : ∀ c ∈ Nat.toDigits 10 (n + 1), c.isDigit = true :=
      fun c => Nat.isDigit_of_mem_toDigits (by decide) (by decide)
    have trimmed : Text.trim ('-' :: Nat.toDigits 10 (n + 1)) = '-' :: Nat.toDigits 10 (n + 1) := by
      refine Text.trim_eq_self rfl (List.getLast?_eq_some_getLast (List.cons_ne_nil _ _))
        (by decide)
        (Text.isBlank_eq_false_of_isDigit (digits _ ?_))
      rw [List.getLast_cons Nat.toDigits_ne_nil]
      exact List.getLast_mem _
    rw [wholeNumber?, spelled, trimmed]
    change ((if (Nat.toDigits 10 (n + 1)).isEmpty then none else _).map _) = _
    rw [List.isEmpty_eq_false_iff.2 Nat.toDigits_ne_nil, if_neg Bool.false_ne_true,
      Text.natInBase?_of_isDigit digits, Text.natOfDigits_toDigits]
    rfl
namespace Number

theorem truncate?_of_toInt? {x : Number} {n : Int} (whole : x.toInt? = some n) :
    x.truncate? = some n := by
  unfold toInt? at whole
  unfold truncate?
  split at whole
  next finite =>
    rw [if_pos finite]
    dsimp only at whole
    split at whole
    next => exact whole
    next => cases whole
  next => cases whole

theorem isNaN_ofField (negative : Bool) (field : Nat) : (ofField negative field).isNaN = false := by
  have bound := toNat_bits_ofField negative field
  rw [isNaN, decide_eq_false_iff_not, Number.field, bound]
  unfold signBit infinityField hiddenBit at *
  cases negative <;> simp <;> omega

theorem isNaN_ofNat (n : Nat) : (ofNat n).isNaN = false := by
  unfold ofNat ofRatio
  split <;> exact isNaN_ofField _ _

theorem equals_ofNat (n : Nat) : (ofNat n).equals (ofNat n) = true := by
  simp [equals, isNaN_ofNat]

end Number

namespace Action

open Marshal.Effect

theorem wholeNumber_run (n : Int) (g : Graph) :
    (wholeNumber (.string (toString n))).run g = (.ok n, g) := by
  rw [wholeNumber, run_bind, objectOf?_run]
  dsimp only [Graph.objectOf?, Option.map_none]
  rw [run_bind,
    show (scalar (.string (toString n))).run g = (.ok (.string (toString n)), g) from rfl]
  dsimp only
  rw [wholeNumber?_toString]
  rfl

theorem time_number_run (x : Number) (g : Graph) :
    (time (.number x)).run g = (.ok (clip x.truncate?), g) := rfl

theorem clip_truncate?_ofInt {ms : Int} (inside : Calendar.inRange ms = true) :
    clip (Number.ofInt ms).truncate? = some ms := by
  have small : ms.natAbs < 2 ^ 53 := by
    have le : ms.natAbs ≤ 8640000000000000 := of_decide_eq_true inside
    omega
  rw [Number.truncate?_of_toInt? (Number.toInt?_ofInt small), clip, Option.filter_some,
    if_pos inside]

theorem text_string_run (s : String) (g : Graph) : (text (.string s)).run g = (.ok s, g) := by
  rw [text, run_bind, run_get]
  rfl

theorem text_number_run (n : Number) (g : Graph) : (text (.number n)).run g = (.ok n.text, g) := by
  rw [text, run_bind, run_get]
  rfl

theorem patternOf_run {source flags : String}
    (stable : Pattern.build? source flags = some (source, flags)) (g : Graph) :
    (patternOf (.string source) (.string flags)).run g =
      (.ok (.object g.size), g.add { kind := some .pattern, body := .pattern source flags }) := by
  rw [patternOf, run_bind, objectOf?_run]
  dsimp only [Graph.objectOf?, Option.map_none]
  rw [run_bind, text_string_run]
  dsimp only
  rw [run_bind, text_string_run]
  dsimp only
  rw [stable]
  rfl

end Action

end Marshal
