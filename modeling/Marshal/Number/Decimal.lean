import Marshal.Number

namespace Marshal.Number

/-- Base ten digits of `digits * 10 ^ (point - length)`: a whole number and where its point stands,
counted from the left. -/
structure Decimal where
  digits : List Char
  point : Int
deriving Repr, DecidableEq

def digitsOf (n : Nat) : List Char := Nat.toDigits 10 n

/-- How many digits stand before the point of `num / den`; zero or less for a small fraction. -/
def decimalPlace (num den : Nat) : Int :=
  let lifted := num * Nat.pow 10 400 / den
  Int.ofNat (digitsOf lifted).length - 400

/-- Whether `n * 10 ^ place` reads back as the number with the given significand and scale. -/
structure Rounding where
  /-- Four times the significand. -/
  centre : Nat
  /-- The ends of the interval that reads back, on the same grid. -/
  low : Nat
  high : Nat
  /-- Ends belong to the interval when the significand is even. -/
  closed : Bool
  /-- The grid is `gridNum / gridDen`. -/
  gridNum : Nat
  gridDen : Nat

def Rounding.ofNumber (x : Number) : Rounding :=
  let m := x.significand
  let narrow := m = hiddenBit ∧ 0 < x.scale
  { centre := 4 * m
    low := if narrow then 4 * m - 1 else 4 * m - 2
    high := 4 * m + 2
    closed := m % 2 = 0
    gridNum := Nat.pow 2 (x.scale - 1076)
    gridDen := Nat.pow 2 (1076 - x.scale) }

/-- The decimal `n * 10 ^ place` over the common denominator of grid and power of ten. -/
def Rounding.lift (r : Rounding) (n : Nat) (place : Int) : Nat :=
  n * Nat.pow 10 place.toNat * r.gridDen

def Rounding.drop (r : Rounding) (g : Nat) (place : Int) : Nat :=
  g * r.gridNum * Nat.pow 10 (-place).toNat

def Rounding.holds (r : Rounding) (n : Nat) (place : Int) : Bool :=
  let v := r.lift n place
  let low := r.drop r.low place
  let high := r.drop r.high place
  if r.closed then low ≤ v && v ≤ high else low < v && v < high

def Rounding.distance (r : Rounding) (n : Nat) (place : Int) : Nat :=
  let v := r.lift n place
  let c := r.drop r.centre place
  (v - c) + (c - v)

/-- The nearer of the two neighbours on the grid of `place` that read back, if one does. -/
def Rounding.neighbour? (r : Rounding) (place : Int) : Option Nat :=
  let below := r.drop r.centre place / (Nat.pow 10 place.toNat * r.gridDen)
  let above := below + 1
  match r.holds below place && below != 0, r.holds above place with
  | true, true =>
    if r.distance below place < r.distance above place then some below
    else if r.distance above place < r.distance below place then some above
    else some (if below % 2 = 0 then below else above)
  | true, false => some below
  | false, true => some above
  | false, false => none

def dropTrailingZeros (ds : List Char) : List Char :=
  (ds.reverse.dropWhile (· == '0')).reverse

/-- The fewest digits that read back, tried from `tried + 1` digits on. -/
def shortestFrom (r : Rounding) (point : Int) : (tried left : Nat) → Decimal
  | tried, 0 => ⟨digitsOf (r.drop r.centre (point - tried)), point⟩
  | tried, left + 1 =>
    match r.neighbour? (point - (tried + 1)) with
    | some n =>
      let ds := digitsOf n
      ⟨dropTrailingZeros ds, Int.ofNat ds.length + point - (tried + 1)⟩
    | none => shortestFrom r point (tried + 1) left

/-- The fewest digits that read back as this magnitude, nearest to it among those. Seventeen
digits always suffice. -/
def shortest (x : Number) : Decimal :=
  let (num, den) := x.ratio
  shortestFrom (Rounding.ofNumber x) (decimalPlace num den) 0 17

def zeros (n : Nat) : List Char := List.replicate n '0'

/-- Positional from a millionth up to below `10 ^ 21`, otherwise one digit, a point and a signed
exponent. -/
def Decimal.text (d : Decimal) : List Char :=
  let count := d.digits.length
  if 0 < d.point ∧ d.point ≤ 21 then
    let whole := d.point.toNat
    if count ≤ whole then d.digits ++ zeros (whole - count)
    else d.digits.take whole ++ '.' :: d.digits.drop whole
  else if -6 < d.point ∧ d.point ≤ 0 then
    '0' :: '.' :: zeros (-d.point).toNat ++ d.digits
  else
    let exponent := d.point - 1
    let mark := if exponent < 0 then ['e', '-'] else ['e', '+']
    let first := d.digits.take 1
    let rest := d.digits.drop 1
    let mantissa := if rest.isEmpty then first else first ++ '.' :: rest
    mantissa ++ mark ++ digitsOf exponent.natAbs

/-- The usual text of a number: shortest digits, no sign on a zero. -/
def text (x : Number) : String :=
  if x.isNaN then "NaN"
  else if !x.isFinite then if x.isNegative then "-Infinity" else "Infinity"
  else if x.field = 0 then "0"
  else
    let body := String.ofList (x.shortest.text)
    if x.isNegative then "-" ++ body else body

/-- The number nearest to `n * 10 ^ exponent`. Powers far outside the range are cut off before
they are computed. -/
def ofDecimal (negative : Bool) (n : Nat) (exponent : Int) : Number :=
  if n = 0 then ofField negative 0
  else
    let size := Int.ofNat (digitsOf n).length + exponent
    if 400 < size then ofField negative infinityField
    else if size < -400 then ofField negative 0
    else ofRatio negative (n * Nat.pow 10 exponent.toNat) (Nat.pow 10 (-exponent).toNat)

end Marshal.Number
