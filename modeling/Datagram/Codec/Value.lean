import Datagram.Dict
import Datagram.Ieee.Shortest
import Datagram.Octets

/-!
Values that are read from a message, as numbers and as text.
-/

namespace Datagram

open Datagram.Text (binary decimalInt upperHex zeroPadded)

inductive Value where
  | scalar (type : Scalar) (pattern : BitVec type.bits)
  | text (s : String)
  | bytes (b : List UInt8)
  deriving DecidableEq

namespace Value

/-- The number that the pattern of an integer stands for. -/
def integer? : Value → Option Int
  | .scalar (.int true _) p => some p.toInt
  | .scalar (.int false _) p => some p.toNat
  | _ => none

/-- The number, if it comes from an unsigned field. -/
def unsigned? : Value → Option Nat
  | .scalar (.int false _) p => some p.toNat
  | _ => none

/-- The number, if a signed word of 64 bits holds it. -/
def int64? (v : Value) : Option Int :=
  v.integer?.filter fun n => Int64.minValue.toInt ≤ n ∧ n ≤ Int64.maxValue.toInt

/-- The number as a double precision pattern. -/
def double? : Value → Option Nat
  | .scalar .float p => some (Ieee.Format.convert .binary32 .binary64 p.toNat)
  | .scalar .double p => some p.toNat
  | v => v.int64?.map (Ieee.Format.ofInt .binary64)

def text? : Value → Option String
  | .text s => some s
  | _ => none

/-- The pattern of a number. -/
def pattern? : Value → Option UInt64
  | .scalar _ p => some (UInt64.ofNat p.toNat)
  | _ => none

/-- Integers in decimal, other numbers with their shortest digits, bytes in hexadecimal. -/
def display : Value → String
  | .scalar (.int true _) p => String.ofList (decimalInt p.toInt)
  | .scalar (.int false _) p => String.ofList (decimalInt p.toNat)
  | .scalar .float p => String.ofList (Ieee.Format.text .binary32 p.toNat)
  | .scalar .double p => String.ofList (Ieee.Format.text .binary64 p.toNat)
  | .text s => s
  | .bytes b => String.ofList (Octets.dump b)

/-- An unsigned number of 64 bits. -/
def ofWord (w : UInt64) : Value := .scalar (.int false .w64) (BitVec.ofNat _ w.toNat)

end Value

/-- A pattern of some bytes in hexadecimal, with all its digits. -/
def hexText (pattern : UInt64) (width : Nat) : String :=
  String.ofList ("0x".toList ++ zeroPadded (2 * width) (upperHex pattern.toNat))

/-- A pattern of some bytes in binary, with all its digits. -/
def binaryText (pattern : UInt64) (width : Nat) : String :=
  String.ofList ("0b".toList ++ zeroPadded (8 * width) (binary pattern.toNat))

/-- The text with the label for it, or for the decimal text, in front. -/
def labelled (text decimal : String) (labels : Option (Dict String)) : String :=
  match labels.bind fun d => d.get? text <|> d.get? decimal with
  | some label => label ++ " (" ++ text ++ ")"
  | none => text

end Datagram
