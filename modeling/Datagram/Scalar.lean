/-!
The numeric types of a field: integers of four widths, signed or not, and two floating point types.
-/

namespace Datagram

inductive Width where
  | w8 | w16 | w32 | w64
  deriving DecidableEq, Repr

def Width.bytes : Width → Nat
  | .w8 => 1
  | .w16 => 2
  | .w32 => 4
  | .w64 => 8

inductive Scalar where
  | int (signed : Bool) (width : Width)
  | float
  | double
  deriving DecidableEq, Repr

namespace Scalar

def bytes : Scalar → Nat
  | .int _ w => w.bytes
  | .float => 4
  | .double => 8

def bits (s : Scalar) : Nat := 8 * s.bytes

def isInteger : Scalar → Bool
  | .int .. => true
  | _ => false

def isSigned : Scalar → Bool
  | .int signed _ => signed
  | _ => false

def name : Scalar → String
  | .int false .w8 => "byte"
  | .int true .w8 => "int8"
  | .int true .w16 => "int16"
  | .int false .w16 => "uint16"
  | .int true .w32 => "int32"
  | .int false .w32 => "uint32"
  | .int true .w64 => "int64"
  | .int false .w64 => "uint64"
  | .float => "float"
  | .double => "double"

theorem bytes_pos (s : Scalar) : 0 < s.bytes := by
  cases s with
  | int _ w => cases w <;> simp [bytes, Width.bytes]
  | float => decide
  | double => decide

theorem bytes_le (s : Scalar) : s.bytes ≤ 8 := by
  cases s with
  | int _ w => cases w <;> simp [bytes, Width.bytes]
  | float => decide
  | double => decide

theorem bits_pos (s : Scalar) : 0 < s.bits := by
  have := s.bytes_pos
  unfold bits
  omega

theorem bits_le (s : Scalar) : s.bits ≤ 64 := by
  have := s.bytes_le
  unfold bits
  omega

end Scalar

end Datagram
