import Marshal.Assoc
import Marshal.Text.LowerCase

namespace Marshal

/-- Things kept under the names they were given, in the order of first registration. -/
structure CodecRegistry (α : Type) where
  entries : Assoc String α

namespace CodecRegistry

variable {α : Type}

/-- A known name keeps its position. -/
def register (s : CodecRegistry α) (name : String) (a : α) : CodecRegistry α :=
  ⟨s.entries.set name a⟩

/-- Looks under the small letters of a name. No name and the empty name find nothing. -/
def get? (s : CodecRegistry α) : Option String → Option α
  | none => none
  | some name => if name.isEmpty then none else s.entries.find? (Text.lower name)

def toList (s : CodecRegistry α) : List α := s.entries.values

end CodecRegistry

end Marshal
