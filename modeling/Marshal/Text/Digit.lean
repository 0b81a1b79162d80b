namespace Marshal.Text

def natOfDigits (ds : List Char) : Nat := Nat.ofDigitChars 10 ds 0

theorem natOfDigits_toDigits (n : Nat) : natOfDigits (Nat.toDigits 10 n) = n := by
  simp [natOfDigits]

/-- The value of a digit, after nine that of a letter in either case; 36 for any other character. -/
def digitRank (c : Char) : Nat :=
  if c.isDigit then c.toNat - 48
  else if 'a' ≤ c ∧ c ≤ 'z' then c.toNat - 87
  else if 'A' ≤ c ∧ c ≤ 'Z' then c.toNat - 55
  else 36

/-- The value of a digit of a base, which is at most 36. -/
def digitValue? (base : Nat) (c : Char) : Option Nat :=
  if digitRank c < base then some (digitRank c) else none

/-- The number that digits of a base write; nothing if another character is among them. -/
def natInBase? (base : Nat) (ds : List Char) : Option Nat :=
  ds.foldlM (fun n c => (digitValue? base c).map (base * n + ·)) 0

/-- A sign at the start of a text, if there is one, and the text after it. -/
def spanSign : List Char → Bool × List Char
  | '-' :: rest => (true, rest)
  | '+' :: rest => (false, rest)
  | rest => (false, rest)

end Marshal.Text
