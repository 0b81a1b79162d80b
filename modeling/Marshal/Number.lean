namespace Marshal

/-- A binary64 number, kept as its 64 bits. -/
structure Number where
  bits : UInt64
deriving DecidableEq, Repr

namespace Number

def signBit : Nat := 0x8000000000000000
def hiddenBit : Nat := 0x10000000000000
def infinityField : Nat := 0x7ff * hiddenBit

/-- The bits without the sign. Their order is the order of magnitudes. -/
def field (x : Number) : Nat := x.bits.toNat % signBit

def isNegative (x : Number) : Bool := signBit ≤ x.bits.toNat

def isNaN (x : Number) : Bool := infinityField < x.field

def isFinite (x : Number) : Bool := x.field < infinityField

/-- The only not-a-number a computation shows. -/
def nan : Number := ⟨0x7ff8000000000000⟩

/-- Reads bits, giving every not-a-number the same form. -/
def ofBits (bits : UInt64) : Number :=
  let x : Number := ⟨bits⟩
  if x.isNaN then nan else x

/-- A number from its sign and its unsigned field; a field past infinity is infinity. -/
def ofField (negative : Bool) (field : Nat) : Number :=
  let magnitude := min field infinityField
  ⟨UInt64.ofNat (if negative then signBit + magnitude else magnitude)⟩

def zero : Number := ⟨0⟩
def infinity : Number := ofField false infinityField
def negInfinity : Number := ofField true infinityField

/-- A finite magnitude is `significand * 2 ^ (scale - 1074)`. -/
def significand (x : Number) : Nat :=
  let fraction := x.field % hiddenBit
  if x.field < hiddenBit then fraction else hiddenBit + fraction

def scale (x : Number) : Nat := x.field / hiddenBit - 1

/-- A finite magnitude as a fraction over a power of two. -/
def ratio (x : Number) : Nat × Nat :=
  (x.significand * Nat.pow 2 (x.scale - 1074), Nat.pow 2 (1074 - x.scale))

/-- The quotient rounded to a whole number, a half going to the even neighbour. -/
def roundQuotient (num den : Nat) : Nat :=
  let quotient := num / den
  let double := 2 * (num % den)
  if double < den then quotient
  else if den < double then quotient + 1
  else quotient + quotient % 2

/-- The number nearest to `num / den`, a tie going to the even significand. The fields of
consecutive numbers are consecutive, so a carry out of the significand needs no case. -/
def ofRatio (negative : Bool) (num den : Nat) : Number :=
  if num = 0 ∨ den = 0 then ofField negative 0
  else
    -- `low` is the binary logarithm of the quotient or one less
    let low : Int := Int.ofNat num.log2 - Int.ofNat den.log2 - 1
    let low : Int :=
      if num * Nat.pow 2 (-(low + 1)).toNat < den * Nat.pow 2 (low + 1).toNat then low else low + 1
    let place : Nat := (low - 52 + 1074).toNat
    let down := place - 1074
    let up := 1074 - place
    ofField negative (place * hiddenBit + roundQuotient (num * Nat.pow 2 up) (den * Nat.pow 2 down))

def ofNat (n : Nat) : Number := ofRatio false n 1

def ofInt (n : Int) : Number := if n < 0 then ofRatio true n.natAbs 1 else ofRatio false n.natAbs 1

def signed (x : Number) (magnitude : Nat) : Int :=
  if x.isNegative then -Int.ofNat magnitude else Int.ofNat magnitude

/-- The number without its fraction; nothing for infinities and not-a-number. -/
def truncate? (x : Number) : Option Int :=
  if x.isFinite then
    let (num, den) := x.ratio
    some (x.signed (num / den))
  else none

/-- The whole number this is, if it is one; both zeros are 0. -/
def toInt? (x : Number) : Option Int :=
  if x.isFinite then
    let (num, den) := x.ratio
    if num % den = 0 then some (x.signed (num / den)) else none
  else none

/-- Whole numbers up to `2 ^ 53 - 1` in magnitude, without the negative zero. -/
def safeInt? (x : Number) : Option Int :=
  match x.toInt? with
  | some n => if n.natAbs < 0x20000000000000 ∧ ¬ (n = 0 ∧ x.isNegative) then some n else none
  | none => none

def isNegativeZero (x : Number) : Bool := x.bits.toNat == signBit

/-- Equal as numbers: zeros agree, and not-a-number differs from itself. -/
def equals (x y : Number) : Bool :=
  !x.isNaN && !y.isNaN && (x.bits == y.bits || (x.field == 0 && y.field == 0))

/-- Whether the count `n` is past the limit `x`. Nothing is past not-a-number. -/
def exceededBy (x : Number) (n : Nat) : Bool :=
  if x.isNaN then false
  else if x.isFinite then
    let (num, den) := x.ratio
    if x.isNegative ∧ num ≠ 0 then true else num < n * den
  else x.isNegative

/-- The sum, rounded once. Infinite or undefined operands give not-a-number. -/
def add (x y : Number) : Number :=
  if x.isFinite && y.isFinite then
    let (a, p) := x.ratio
    let (b, q) := y.ratio
    let sum := x.signed a * Int.ofNat q + y.signed b * Int.ofNat p
    ofRatio (sum < 0) sum.natAbs (p * q)
  else nan

/-- Reads a binary32 pattern, which is exact in binary64. -/
def ofSingle (bits : UInt32) : Number :=
  let n := bits.toNat
  let negative := 0x80000000 ≤ n
  let exponent := n / 0x800000 % 256
  let fraction := n % 0x800000
  if exponent = 255 then
    if fraction = 0 then ofField negative infinityField else nan
  else if exponent = 0 then ofRatio negative fraction (Nat.pow 2 149)
  else ofRatio negative ((0x800000 + fraction) * Nat.pow 2 exponent) (Nat.pow 2 150)

/-- The low byte of the truncated number; 0 where there is none. -/
def lowByte (x : Number) : UInt8 :=
  match x.truncate? with
  | some n => UInt8.ofNat (n % 256).toNat
  | none => 0

end Number

end Marshal
