namespace Marshal.Text

/-- The 16-bit units of a character: one, or a pair of surrogates. -/
def unitsOfChar (c : Char) : List UInt16 :=
  if c.toNat < 0x10000 then [UInt16.ofNat c.toNat]
  else
    let n := c.toNat - 0x10000
    [UInt16.ofNat (0xd800 + n / 1024), UInt16.ofNat (0xdc00 + n % 1024)]

def units (s : String) : List UInt16 := s.toList.flatMap unitsOfChar

def isHighSurrogate (u : UInt16) : Bool := 0xd800 ≤ u && u ≤ 0xdbff
def isLowSurrogate (u : UInt16) : Bool := 0xdc00 ≤ u && u ≤ 0xdfff

def pairUp (high low : UInt16) : Char :=
  Char.ofNat (0x10000 + (high.toNat - 0xd800) * 1024 + (low.toNat - 0xdc00))

/-- The characters of 16-bit units, nothing if a surrogate stands alone. -/
def charsOfUnits? : List UInt16 → Option (List Char)
  | [] => some []
  | [u] => if isHighSurrogate u || isLowSurrogate u then none else some [Char.ofNat u.toNat]
  | u :: v :: rest =>
    if isHighSurrogate u then
      if isLowSurrogate v then (charsOfUnits? rest).map (pairUp u v :: ·) else none
    else if isLowSurrogate u then none
    else (charsOfUnits? (v :: rest)).map (Char.ofNat u.toNat :: ·)

theorem charsOfUnits?_cons {u : UInt16} (high : isHighSurrogate u = false)
    (low : isLowSurrogate u = false) (rest : List UInt16) :
    charsOfUnits? (u :: rest) = (charsOfUnits? rest).map (Char.ofNat u.toNat :: ·) := by
  cases rest <;> simp [charsOfUnits?, high, low]

theorem charsOfUnits?_unitsOfChar (c : Char) (rest : List UInt16) :
    charsOfUnits? (unitsOfChar c ++ rest) = (charsOfUnits? rest).map (c :: ·) := by
  have valid : c.toNat < 0xd800 ∨ 0xdfff < c.toNat ∧ c.toNat < 0x110000 := c.valid
  unfold unitsOfChar
  split
  next small =>
    have unit : (UInt16.ofNat c.toNat).toNat = c.toNat := by
      rw [UInt16.toNat_ofNat']; omega
    have high : isHighSurrogate (UInt16.ofNat c.toNat) = false := by
      simp only [isHighSurrogate, UInt16.le_iff_toNat_le, unit, Bool.and_eq_false_iff,
        decide_eq_false_iff_not, UInt16.reduceToNat]
      omega
    have low : isLowSurrogate (UInt16.ofNat c.toNat) = false := by
      simp only [isLowSurrogate, UInt16.le_iff_toNat_le, unit, Bool.and_eq_false_iff,
        decide_eq_false_iff_not, UInt16.reduceToNat]
      omega
    rw [List.singleton_append, charsOfUnits?_cons high low, unit, Char.ofNat_toNat]
  next large =>
    have first : (UInt16.ofNat (0xd800 + (c.toNat - 0x10000) / 1024)).toNat =
        0xd800 + (c.toNat - 0x10000) / 1024 := by
      rw [UInt16.toNat_ofNat']; omega
    have second : (UInt16.ofNat (0xdc00 + (c.toNat - 0x10000) % 1024)).toNat =
        0xdc00 + (c.toNat - 0x10000) % 1024 := by
      rw [UInt16.toNat_ofNat']; omega
    have high : isHighSurrogate (UInt16.ofNat (0xd800 + (c.toNat - 0x10000) / 1024)) = true := by
      simp only [isHighSurrogate, UInt16.le_iff_toNat_le, first, Bool.and_eq_true,
        decide_eq_true_eq, UInt16.reduceToNat]
      omega
    have low : isLowSurrogate (UInt16.ofNat (0xdc00 + (c.toNat - 0x10000) % 1024)) = true := by
      simp only [isLowSurrogate, UInt16.le_iff_toNat_le, second, Bool.and_eq_true,
        decide_eq_true_eq, UInt16.reduceToNat]
      omega
    have pair : pairUp (UInt16.ofNat (0xd800 + (c.toNat - 0x10000) / 1024))
        (UInt16.ofNat (0xdc00 + (c.toNat - 0x10000) % 1024)) = c := by
      have whole : 0x10000 + (0xd800 + (c.toNat - 0x10000) / 1024 - 0xd800) * 1024 +
          (0xdc00 + (c.toNat - 0x10000) % 1024 - 0xdc00) = c.toNat := by omega
      rw [pairUp, first, second, whole, Char.ofNat_toNat]
    simp only [List.cons_append, List.nil_append, charsOfUnits?, high, low, pair, if_true]

theorem charsOfUnits?_units (s : String) : charsOfUnits? (units s) = some s.toList := by
  unfold units
  induction s.toList with
  | nil => rfl
  | cons c cs ih => rw [List.flatMap_cons, charsOfUnits?_unitsOfChar, ih]; rfl

/-- The characters of 16-bit units, a replacement for each surrogate that stands alone. -/
def charsOfUnits : List UInt16 → List Char
  | [] => []
  | [u] => [if isHighSurrogate u || isLowSurrogate u then Char.ofNat 0xfffd else Char.ofNat u.toNat]
  | u :: v :: rest =>
    if isHighSurrogate u && isLowSurrogate v then pairUp u v :: charsOfUnits rest
    else if isHighSurrogate u || isLowSurrogate u then
      Char.ofNat 0xfffd :: charsOfUnits (v :: rest)
    else Char.ofNat u.toNat :: charsOfUnits (v :: rest)

end Marshal.Text
