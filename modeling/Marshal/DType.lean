namespace Marshal

inductive DType where
  | int8 | uint8 | uint8clamped | int16 | uint16 | int32 | uint32
  | float32 | float64 | int64 | uint64
deriving DecidableEq, Repr

namespace DType

def all : List DType :=
  [int8, uint8, uint8clamped, int16, uint16, int32, uint32, float32, float64, int64, uint64]

def name : DType → String
  | int8 => "int8"
  | uint8 => "uint8"
  | uint8clamped => "uint8clamped"
  | int16 => "int16"
  | uint16 => "uint16"
  | int32 => "int32"
  | uint32 => "uint32"
  | float32 => "float32"
  | float64 => "float64"
  | int64 => "int64"
  | uint64 => "uint64"

def ofName? (s : String) : Option DType := all.find? (·.name == s)

def width : DType → Nat
  | int8 | uint8 | uint8clamped => 1
  | int16 | uint16 => 2
  | int32 | uint32 | float32 => 4
  | float64 | int64 | uint64 => 8

theorem width_pos (d : DType) : 0 < d.width := by cases d <;> decide

theorem ofName?_name (d : DType) : ofName? d.name = some d := by cases d <;> decide

end DType

end Marshal
