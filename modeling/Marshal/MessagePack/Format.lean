import Marshal.Bytes
import Marshal.Number

namespace Marshal.MessagePack

/-- The two ways messages are written and read. A whole value keeps its sharing, its classes of
collections and the shapes of its records; an envelope is plain, with objects as maps. -/
inductive Dialect where
  | whole | envelope
deriving DecidableEq, Repr

/-- Small numbers that are their own byte. In a whole value the bytes from 0x40 on stand for
shapes. -/
def Dialect.smallLimit : Dialect → Nat
  | .whole => 0x40
  | .envelope => 0x80

def be (width n : Nat) : List UInt8 := Bytes.toBigEndian width n

def nilByte : UInt8 := 0xc0
def undefinedBytes : List UInt8 := [0xd4, 0, 0]
def boolByte (b : Bool) : UInt8 := if b then 0xc3 else 0xc2

def natBytes (d : Dialect) (n : Nat) : List UInt8 :=
  if n < d.smallLimit then [UInt8.ofNat n]
  else if n < 0x100 then 0xcc :: be 1 n
  else if n < 0x10000 then 0xcd :: be 2 n
  else 0xce :: be 4 n

def negativeBytes (n : Int) : List UInt8 :=
  if -0x20 ≤ n then be 1 (Bytes.unsigned 1 n)
  else if -0x80 ≤ n then 0xd0 :: be 1 (Bytes.unsigned 1 n)
  else if -0x8000 ≤ n then 0xd1 :: be 2 (Bytes.unsigned 2 n)
  else 0xd2 :: be 4 (Bytes.unsigned 4 n)

/-- Whole numbers in 32 bits take the shortest form, all others eight bytes. -/
def numberBytes (d : Dialect) (x : Number) : List UInt8 :=
  match x.toInt? with
  | some n =>
    if 0 ≤ n ∧ n < 0x100000000 then natBytes d n.toNat
    else if -0x80000000 ≤ n ∧ n < 0 then negativeBytes n
    else 0xcb :: be 8 x.bits.toNat
  | none => 0xcb :: be 8 x.bits.toNat

def textHeader (n : Nat) : List UInt8 :=
  if n < 0x20 then [UInt8.ofNat (0xa0 + n)]
  else if n < 0x100 then 0xd9 :: be 1 n
  else if n < 0x10000 then 0xda :: be 2 n
  else 0xdb :: be 4 n

def listHeader (n : Nat) : List UInt8 :=
  if n < 0x10 then [UInt8.ofNat (0x90 + n)]
  else if n < 0x10000 then 0xdc :: be 2 n
  else 0xdd :: be 4 n

def mapHeader (n : Nat) : List UInt8 :=
  if n < 0x10 then [UInt8.ofNat (0x80 + n)]
  else if n < 0x10000 then 0xde :: be 2 n
  else 0xdf :: be 4 n

/-- Objects of an envelope always take two bytes for their size. -/
def fieldsHeader (n : Nat) : List UInt8 := 0xde :: be 2 n

def binaryHeader (n : Nat) : List UInt8 :=
  if n < 0x100 then 0xc4 :: be 1 n
  else if n < 0x10000 then 0xc5 :: be 2 n
  else 0xc6 :: be 4 n

def lengthHeader (n : Nat) : List UInt8 :=
  if n < 0x100 then 0xc7 :: be 1 n
  else if n < 0x10000 then 0xc8 :: be 2 n
  else 0xc9 :: be 4 n

def extensionHeader (n : Nat) : List UInt8 :=
  if n = 1 then [0xd4]
  else if n = 2 then [0xd5]
  else if n = 4 then [0xd6]
  else if n = 8 then [0xd7]
  else if n = 16 then [0xd8]
  else lengthHeader n

def tableType : UInt8 := 0x30
def columnType : UInt8 := 0x31
def bigintType : UInt8 := 0x42
def errorType : UInt8 := 0x65
def anchorType : UInt8 := 0x69
def pointerType : UInt8 := 0x70
def shapeType : UInt8 := 0x72
def setType : UInt8 := 0x73
def arrayType : UInt8 := 0x74
def patternType : UInt8 := 0x78
def timeType : UInt8 := 0xff

/-- An extension that says how to read the value after it. -/
def tagBytes (type : UInt8) : List UInt8 := [0xd4, type, 0]

/-- How many words of eight bytes hold a number in two's complement. -/
def wordsNeeded (n : Int) : Nat := (if n < 0 then (-n - 1).toNat else n.toNat).log2 / 64 + 1

/-- Two's complement in whole words, with a further word when the sign bit would be taken. -/
def bigWords (n : Int) : Nat :=
  let words := wordsNeeded n
  let limit := Int.ofNat (Nat.pow 2 (64 * words - 1))
  if -limit ≤ n ∧ n < limit then words else words + 1

/-- Numbers beyond `2 ^ 65536` take the fewest bytes that keep the sign. -/
def bigBytes (n : Int) : List UInt8 :=
  let limit := Int.ofNat (Nat.pow 2 65536)
  let width :=
    if -limit ≤ n ∧ n < limit then 8 * bigWords n
    else (if n < 0 then (-n - 1).toNat else n.toNat).log2 / 8 + 1 +
      (if (if n < 0 then (-n - 1).toNat else n.toNat).log2 % 8 = 7 then 1 else 0)
  be width (Bytes.unsigned width n)

/-- Whole seconds in four bytes while they fit, milliseconds as nanoseconds otherwise. Times outside
the unsigned range of seconds take twelve bytes. -/
def timeBytes : Option Int → List UInt8
  | none => [0xd4, timeType, 0xff]
  | some ms =>
    let seconds := Int.fdiv ms 1000
    let milli := (ms - seconds * 1000).toNat
    if milli = 0 ∧ 0 ≤ seconds ∧ seconds < 0x100000000 then
      [0xd6, timeType] ++ be 4 seconds.toNat
    else if 0 < ms ∧ seconds < 0x100000000 then
      [0xd7, timeType] ++ be 4 (milli * 4000000) ++ be 4 seconds.toNat
    else [0xc7, 12, timeType] ++ be 4 (milli * 1000000) ++ be 8 (Bytes.unsigned 8 seconds)

end Marshal.MessagePack
