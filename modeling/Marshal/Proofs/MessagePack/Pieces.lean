import Mathlib.Algebra.Group.Nat.Defs
import Marshal.MessagePack.Reader
import Marshal.Proofs.Bytes
import Marshal.Proofs.Effect

namespace Marshal.Text

theorem ofUtf8_toUTF8 (s : String) : ofUtf8 s.toUTF8 = s := by
  rw [ofUtf8, String.fromUTF8?, String.toUTF8, dif_pos s.isValidUTF8]
  rfl

end Marshal.Text

namespace Marshal.MessagePack

open Marshal.Effect

namespace Reader

variable {src : ByteArray} {pos : Nat}

theorem byteAt_of_at {l : List UInt8} (h : Bytes.At src pos l) {i : Nat} (bound : i < l.length) :
    byteAt src (pos + i) = l[i].toNat := by
  rw [byteAt, h.getElem? bound, List.getElem?_eq_getElem bound]
  rfl

def Spells (src : ByteArray) (pos : Nat) (c : Char) (width : Nat) : Prop :=
  ∀ stop fuel, pos < stop →
    charsFrom src stop (fuel + 1) pos =
      (c :: (charsFrom src stop fuel (pos + width)).1, (charsFrom src stop fuel (pos + width)).2)

theorem spells_one {c : Char} (first : byteAt src pos = c.toNat) (small : c.toNat < 0x80) :
    Spells src pos c 1 := by
  intro stop fuel before
  rw [charsFrom, if_neg (Nat.not_le.2 before)]
  simp only [first, small, if_true, Char.ofNat_toNat]

theorem spells_two {c : Char} (low : 0x80 ≤ c.toNat) (high : c.toNat < 0x800)
    (first : byteAt src pos = c.toNat / 64 + 0xc0)
    (second : byteAt src (pos + 1) = c.toNat % 64 + 0x80) : Spells src pos c 2 := by
  intro stop fuel before
  have point : (c.toNat / 64 + 0xc0) % 32 * 64 + (c.toNat % 64 + 0x80) % 64 = c.toNat := by omega
  have lead : ¬ c.toNat / 64 + 0xc0 < 0x80 ∧ c.toNat / 64 + 0xc0 < 0xe0 := by omega
  rw [charsFrom, if_neg (Nat.not_le.2 before)]
  simp only [first, second, point, lead, Nat.not_lt.2 low, Nat.le_add_left, true_and, if_true,
    if_false, Char.ofNat_toNat]

theorem spells_three {c : Char} (low : 0x800 ≤ c.toNat) (high : c.toNat < 0x10000)
    (first : byteAt src pos = c.toNat / 4096 + 0xe0)
    (second : byteAt src (pos + 1) = c.toNat / 64 % 64 + 0x80)
    (third : byteAt src (pos + 2) = c.toNat % 64 + 0x80) : Spells src pos c 3 := by
  intro stop fuel before
  have valid : c.toNat < 0xd800 ∨ 0xdfff < c.toNat ∧ c.toNat < 0x110000 := c.valid
  have point : ((c.toNat / 4096 + 0xe0) % 16 * 64 + (c.toNat / 64 % 64 + 0x80) % 64) * 64 +
      (c.toNat % 64 + 0x80) % 64 = c.toNat := by omega
  have lead : ¬ c.toNat / 4096 + 0xe0 < 0x80 ∧ ¬ c.toNat / 4096 + 0xe0 < 0xe0 ∧
      c.toNat / 4096 + 0xe0 < 0xf0 := by omega
  have whole : ¬ (c.toNat < 0x800 ∨ 0xd800 ≤ c.toNat ∧ c.toNat ≤ 0xdfff) := by omega
  rw [charsFrom, if_neg (Nat.not_le.2 before)]
  simp only [first, second, third, point, lead, whole, Nat.le_add_left, true_and, and_false,
    if_true, if_false, Char.ofNat_toNat]

theorem spells_four {c : Char} (low : 0x10000 ≤ c.toNat)
    (first : byteAt src pos = c.toNat / 262144 + 0xf0)
    (second : byteAt src (pos + 1) = c.toNat / 4096 % 64 + 0x80)
    (third : byteAt src (pos + 2) = c.toNat / 64 % 64 + 0x80)
    (fourth : byteAt src (pos + 3) = c.toNat % 64 + 0x80) : Spells src pos c 4 := by
  intro stop fuel before
  have valid : c.toNat < 0xd800 ∨ 0xdfff < c.toNat ∧ c.toNat < 0x110000 := c.valid
  have point : (((c.toNat / 262144 + 0xf0) % 8 * 64 + (c.toNat / 4096 % 64 + 0x80) % 64) * 64 +
      (c.toNat / 64 % 64 + 0x80) % 64) * 64 + (c.toNat % 64 + 0x80) % 64 = c.toNat := by omega
  have lead : ¬ c.toNat / 262144 + 0xf0 < 0x80 ∧ ¬ c.toNat / 262144 + 0xf0 < 0xe0 ∧
      ¬ c.toNat / 262144 + 0xf0 < 0xf0 ∧ c.toNat / 262144 + 0xf0 < 0xf8 := by omega
  have whole : ¬ (c.toNat < 0x10000 ∨ 0x10ffff < c.toNat) := by omega
  rw [charsFrom, if_neg (Nat.not_le.2 before)]
  simp only [first, second, third, fourth, point, lead, whole, Nat.le_add_left, true_and,
    and_false, if_true, if_false, Char.ofNat_toNat]

theorem spells_of_at {c : Char} (h : Bytes.At src pos (String.utf8EncodeChar c)) :
    Spells src pos c (String.utf8EncodeChar c).length := by
  have valid : c.toNat < 0xd800 ∨ 0xdfff < c.toNat ∧ c.toNat < 0x110000 := c.valid
  have same : c.val.toNat = c.toNat := rfl
  unfold String.utf8EncodeChar at h ⊢
  rw [same] at h ⊢
  dsimp only at h ⊢
  -- one case for each number of bytes that a character takes
  split at h
  next small =>
    rw [if_pos small]
    refine spells_one ((byteAt_of_at h (i := 0) (by simp)).trans ?_) (by omega)
    simp
    omega
  next two =>
    rw [if_neg two]
    split at h
    next small =>
      rw [if_pos small]
      refine spells_two (by omega) (by omega) ((byteAt_of_at h (i := 0) (by simp)).trans ?_)
        ((byteAt_of_at h (i := 1) (by simp)).trans ?_) <;> simp <;> omega
    next three =>
      rw [if_neg three]
      split at h
      next small =>
        rw [if_pos small]
        refine spells_three (by omega) (by omega) ((byteAt_of_at h (i := 0) (by simp)).trans ?_)
          ((byteAt_of_at h (i := 1) (by simp)).trans ?_)
          ((byteAt_of_at h (i := 2) (by simp)).trans ?_) <;> simp <;> omega
      next four =>
        rw [if_neg four]
        refine spells_four (by omega) ((byteAt_of_at h (i := 0) (by simp)).trans ?_)
          ((byteAt_of_at h (i := 1) (by simp)).trans ?_)
          ((byteAt_of_at h (i := 2) (by simp)).trans ?_)
          ((byteAt_of_at h (i := 3) (by simp)).trans ?_) <;> simp <;> omega

theorem length_utf8EncodeChar_pos (c : Char) : 0 < (String.utf8EncodeChar c).length := by
  rw [String.length_utf8EncodeChar]
  exact c.utf8Size_pos

theorem charsFrom_of_at {cs : List Char} (h : Bytes.At src pos (cs.flatMap String.utf8EncodeChar))
    {fuel : Nat} (room : cs.length ≤ fuel) :
    charsFrom src (pos + (cs.flatMap String.utf8EncodeChar).length) fuel pos =
      (cs, pos + (cs.flatMap String.utf8EncodeChar).length) := by
  induction cs generalizing pos fuel with
  | nil => cases fuel <;> simp [charsFrom]
  | cons c rest ih =>
    obtain ⟨fuel, rfl⟩ : ∃ more, fuel = more + 1 := Nat.exists_eq_add_one_of_ne_zero (by
      simp at room
      omega)
    have positive := length_utf8EncodeChar_pos c
    rw [List.flatMap_cons] at h ⊢
    rw [List.length_append, spells_of_at h.left _ _ (by omega), ← Nat.add_assoc,
      ih h.right (by simpa using room)]

theorem data_toUTF8 (s : String) :
    s.toUTF8.data.toList = s.toList.flatMap String.utf8EncodeChar := by
  rw [String.toUTF8, ← String.utf8Encode_toList, List.utf8Encode, List.data_toByteArray]

theorem length_le_size_toUTF8 (s : String) : s.toList.length ≤ s.toUTF8.size := by
  have size : s.toUTF8.size = (s.toList.flatMap String.utf8EncodeChar).length := by
    rw [← data_toUTF8]
    rfl
  rw [size, List.length_flatMap]
  induction s.toList with
  | nil => exact Nat.le_refl _
  | cons c rest ih =>
    have := length_utf8EncodeChar_pos c
    simp at *
    omega

variable {c : Cursor} {l : List UInt8} (g : Graph)

theorem gives_peek {b : UInt8} (h : Bytes.At src pos (b :: l)) :
    Gives (peek? src) { c with pos } g (some b) { c with pos } g :=
  .bind (.get _ g) (by rw [h.head]; exact .pure _ _ g)

theorem gives_byte {b : UInt8} (h : Bytes.At src pos (b :: l)) :
    Gives (byte? src) { c with pos } g (some b) { c with pos := pos + 1 } g :=
  .bind (gives_peek g h) (.bind (.modify _ _ g) (.pure _ _ g))

theorem gives_take (h : Bytes.At src pos l) :
    Gives (take src l.length) { c with pos } g (Bytes.ofList l)
      { c with pos := pos + l.length } g :=
  .bind (.get _ g) (.bind (.set _ _ g) (by rw [h.slice]; exact .pure _ _ g))

theorem gives_fixed {width n : Nat} (h : Bytes.At src pos (be width n)) (positive : 0 < width)
    (small : n < 256 ^ width) :
    Gives (fixed src width) { c with pos } g n { c with pos := pos + width } g := by
  have length : (be width n).length = width := Bytes.length_toBigEndian width n
  have inside : pos + width ≤ src.size := by
    rcases h.le with none | le
    · rw [none] at length
      exact absurd length (Nat.ne_of_lt positive)
    · rwa [length] at le
  have value : Bytes.bigEndian (Bytes.slice src pos width).toList = n := by
    have slice := h.slice
    rw [length] at slice
    rw [Bytes.toList_eq, slice, Bytes.toList_data_ofList, be, Bytes.bigEndian_toBigEndian]
    exact Nat.mod_eq_of_lt small
  refine .bind (.get _ g) ?_
  dsimp only
  rw [if_neg (Nat.not_lt.2 inside), value]
  exact .bind (.set _ _ g) (.pure _ _ g)

end Reader

/-- A text is read as it was, but that a long one loses a byte order mark at its start. -/
def readText (s : String) : String :=
  if Reader.shortText < s.toUTF8.size ∧ s.toList.head? = some (Char.ofNat 0xfeff) then
    String.ofList (s.toList.drop 1)
  else s

theorem readText_eq_iff (s : String) :
    readText s = s ↔
      ¬ (Reader.shortText < s.toUTF8.size ∧ s.toList.head? = some (Char.ofNat 0xfeff)) := by
  constructor
  · rintro same ⟨long, mark⟩
    rw [readText, if_pos ⟨long, mark⟩, ← String.toList_inj, String.toList_ofList] at same
    have length := congrArg List.length same
    obtain ⟨rest, spelled⟩ := List.head?_eq_some_iff.1 mark
    rw [spelled, List.length_drop, List.length_cons] at length
    omega
  · intro unmarked
    rw [readText, if_neg unmarked]

namespace Reader

variable {src : ByteArray} {c : Cursor} {pos : Nat} (g : Graph)

theorem gives_text {s : String} (h : Bytes.At src pos s.toUTF8.data.toList) :
    Gives (text src s.toUTF8.size) { c with pos } g (readText s)
      { c with pos := pos + s.toUTF8.size } g := by
  unfold text readText
  split
  next long =>
    have taken : Gives (take src s.toUTF8.size) { c with pos } g s.toUTF8
      { c with pos := pos + s.toUTF8.size } g := gives_take g h
    refine .bind taken ?_
    rw [Text.ofUtf8_toUTF8]
    simp only [long, true_and, beq_iff_eq]
    split
    next => exact .pure _ _ g
    next =>
      rw [String.ofList_toList]
      exact .pure _ _ g
  next short =>
    have length : s.toUTF8.size = (s.toList.flatMap String.utf8EncodeChar).length := by
      rw [← data_toUTF8]
      rfl
    have decoded := charsFrom_of_at (data_toUTF8 s ▸ h) (length_le_size_toUTF8 s)
    rw [← length] at decoded
    rw [if_neg fun both => short both.1]
    refine .bind (.get _ g) ?_
    dsimp only
    rw [decoded]
    refine .bind (.set _ _ g) ?_
    rw [String.ofList_toList]
    exact .pure _ _ g

end Reader

end Marshal.MessagePack
