namespace Marshal.Text

/-- Stands for bytes that are no character. -/
def replacement : Char := Char.ofNat 0xfffd

/-- What a lead byte asks for: how many bytes follow, the bounds of the first of them, and the bits
the lead byte itself gives. -/
def leadByte? (b : Nat) : Option (Nat × Nat × Nat × Nat) :=
  if 0xc2 ≤ b ∧ b ≤ 0xdf then some (1, 0x80, 0xbf, b - 0xc0)
  else if b = 0xe0 then some (2, 0xa0, 0xbf, 0)
  else if b = 0xed then some (2, 0x80, 0x9f, 0xd)
  else if 0xe1 ≤ b ∧ b ≤ 0xef then some (2, 0x80, 0xbf, b - 0xe0)
  else if b = 0xf0 then some (3, 0x90, 0xbf, 0)
  else if 0xf1 ≤ b ∧ b ≤ 0xf3 then some (3, 0x80, 0xbf, b - 0xf0)
  else if b = 0xf4 then some (3, 0x80, 0x8f, 4)
  else none

/-- Takes the wanted following bytes while they fit: how many fitted, and the code point when all
did. -/
def followBytes (wanted low high point taken : Nat) : List UInt8 → Nat × Option Nat
  | [] => if wanted = 0 then (taken, some point) else (taken, none)
  | b :: rest =>
    if wanted = 0 then (taken, some point)
    else if low ≤ b.toNat ∧ b.toNat ≤ high then
      followBytes (wanted - 1) 0x80 0xbf (point * 64 + (b.toNat - 0x80)) (taken + 1) rest
    else (taken, none)

/-- The characters of a byte sequence. The longest start of a character that does not become one
gives one replacement. -/
def decodeLossy : List UInt8 → List Char
  | [] => []
  | b :: rest =>
    if b.toNat < 0x80 then Char.ofNat b.toNat :: decodeLossy rest
    else
      match leadByte? b.toNat with
      | none => replacement :: decodeLossy rest
      | some (wanted, low, high, point) =>
        let (taken, found) := followBytes wanted low high point 0 rest
        (found.map Char.ofNat).getD replacement :: decodeLossy (rest.drop taken)
termination_by bs => bs.length
decreasing_by all_goals simp [List.length_drop]; try omega

/-- The text of bytes, with replacements where they are not UTF-8. -/
def ofUtf8 (bytes : ByteArray) : String :=
  match String.fromUTF8? bytes with
  | some s => s
  | none => String.ofList (decodeLossy bytes.toList)

end Marshal.Text
