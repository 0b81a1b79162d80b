import Marshal.Number

namespace Marshal

abbrev Ref := Nat

/-- A value: a scalar, or a reference to an object, which may be shared. -/
inductive Value where
  | null
  | undefined
  | bool (b : Bool)
  | number (x : Number)
  | string (s : String)
  /-- A text in 16-bit units in which a surrogate stands alone. -/
  | brokenText (units : List UInt16)
  | bigint (n : Int)
  | symbol (id : Nat)
  | object (ref : Ref)
deriving DecidableEq, Repr

namespace Value

def nat (n : Nat) : Value := .number (Number.ofNat n)

def int (n : Int) : Value := .number (Number.ofInt n)

/-- The scalars a tuple carries as they are. -/
def isPrimitive : Value → Bool
  | null | undefined | bool _ | number _ | string _ | brokenText _ => true
  | bigint _ | symbol _ | object _ => false

def isNullish : Value → Bool
  | null | undefined => true
  | _ => false

/-- Equality of identities: an object equals only itself, not-a-number equals itself and the two
zeros agree. -/
def same : Value → Value → Bool
  | number x, number y => x.equals y || (x.isNaN && y.isNaN)
  | v, w => v == w

/-- Equality as comparison gives it: not-a-number differs from itself. -/
def equals : Value → Value → Bool
  | number x, number y => x.equals y
  | v, w => v == w

/-- As a key or member of a collection, where the negative zero is stored as zero. -/
def asKey : Value → Value
  | number x => if x.isNegativeZero then number Number.zero else number x
  | v => v

end Value

end Marshal
