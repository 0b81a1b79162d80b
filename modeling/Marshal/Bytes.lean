namespace Marshal.Bytes

def bigEndian (bytes : List UInt8) : Nat := bytes.foldl (fun n b => 256 * n + b.toNat) 0

def littleEndian : List UInt8 → Nat
  | [] => 0
  | b :: rest => b.toNat + 256 * littleEndian rest

def toBigEndian : (width n : Nat) → List UInt8
  | 0, _ => []
  | width + 1, n => toBigEndian width (n / 256) ++ [UInt8.ofNat n]

theorem length_toBigEndian (width n : Nat) : (toBigEndian width n).length = width := by
  induction width generalizing n with
  | zero => rfl
  | succ width ih => simp [toBigEndian, ih]

theorem bigEndian_append (bytes : List UInt8) (b : UInt8) :
    bigEndian (bytes ++ [b]) = 256 * bigEndian bytes + b.toNat := by
  simp [bigEndian]

def capacity (width : Nat) : Nat := Nat.pow 256 width

theorem capacity_succ (width : Nat) : capacity (width + 1) = 256 * capacity width :=
  Nat.mul_comm (Nat.pow 256 width) 256

theorem capacity_pos (width : Nat) : 0 < capacity width := Nat.pow_pos (by decide)

theorem bigEndian_toBigEndian (width n : Nat) :
    bigEndian (toBigEndian width n) = n % capacity width := by
  induction width generalizing n with
  | zero => simp [toBigEndian, bigEndian, capacity, Nat.mod_one]
  | succ width ih =>
    rw [toBigEndian, bigEndian_append, ih, capacity_succ, Nat.mod_mul, UInt8.toNat_ofNat']
    omega

def signed (width n : Nat) : Int :=
  if 2 * n < capacity width then Int.ofNat n else Int.ofNat n - Int.ofNat (capacity width)

def unsigned (width : Nat) (n : Int) : Nat := (n % Int.ofNat (capacity width)).toNat

theorem signed_unsigned (width : Nat) (n : Int)
    (low : -(capacity width : Int) ≤ 2 * n) (high : 2 * n < (capacity width : Int)) :
    signed width (unsigned width n) = n := by
  have positive := capacity_pos width
  have value : (unsigned width n : Int) = if 0 ≤ n then n else n + capacity width := by
    unfold unsigned
    split
    next sign =>
      rw [Int.ofNat_eq_natCast, Int.emod_eq_of_lt sign (by omega)]
      omega
    next sign =>
      rw [Int.ofNat_eq_natCast, ← Int.add_emod_right, Int.emod_eq_of_lt (by omega) (by omega)]
      omega
  simp only [signed, Int.ofNat_eq_natCast]
  split <;> split at value <;> omega

/-- Byte arrays are compared in one way, whichever modules are in scope. -/
instance decEqByteArray : DecidableEq ByteArray := ByteArray.decEq

def slice (bytes : ByteArray) (start count : Nat) : ByteArray := bytes.extract start (start + count)

def ofList (bytes : List UInt8) : ByteArray := ⟨bytes.toArray⟩

end Marshal.Bytes
