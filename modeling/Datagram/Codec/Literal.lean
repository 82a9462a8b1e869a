import Datagram.Field
import Datagram.Ieee.Decimal
import Datagram.Text.Blank
import Datagram.Text.Printable

/-!
The literals that give field values. An integer literal denotes the bit pattern of a number of some
bytes: digits in base two or sixteen denote the pattern itself and have to fit, and a decimal number
has to be in range. Underscores may stand anywhere among the digits of a pattern.
-/

namespace Datagram

open Datagram.Text (afterBinaryMark? afterHexMark? integer? naturalBelow? quoted trim words)

/-- Why a literal gives no value. -/
inductive EncodeFailure where
  | invalidLiteral (literal : String) (expected : FieldType)
  | invalidOctet (token : String)
  deriving DecidableEq

def EncodeFailure.message : EncodeFailure → String
  | .invalidLiteral literal expected =>
    "invalid " ++ expected.name ++ " literal: " ++ quoted literal
  | .invalidOctet token => "invalid octet: " ++ quoted token

namespace Literal

/-- The number of bits in some bytes, counted in a word of 32 bits. -/
def bitCount (width : Nat) : Nat := 8 * width % UInt32.size

/-- How many bits a pattern of some bytes has; a storage word has no more than 64. -/
def patternBits (width : Nat) : Nat := min (bitCount width) 64

/-- A pattern by its digits. -/
def pattern? (base width : Nat) (s : List Char) : Option UInt64 :=
  (naturalBelow? base (1 <<< patternBits width) (s.filter (· ≠ '_'))).map UInt64.ofNat

/-- The least and the largest number of some bytes. A signed number has no more than 128 bits, and the
place of its sign is counted modulo that. -/
def intRange (width : Nat) (signed : Bool) : Int × Int :=
  if signed then
    let half := Int.ofNat (1 <<< ((bitCount width - 1) % 128))
    (-half, half - 1)
  else (0, Int.ofNat (1 <<< patternBits width) - 1)

/-- The pattern of a decimal number. -/
def decimal? (width : Nat) (signed : Bool) (s : List Char) : Option UInt64 :=
  let (least, largest) := intRange width signed
  (integer? s).bind fun n =>
    if least ≤ n ∧ n ≤ largest then
      some (UInt64.ofNat (BitVec.ofInt (patternBits width) n).toNat)
    else none

/-- The pattern of an integer literal. A decimal literal may also be a pattern with a mark. -/
def integerPattern? (radix : Radix) (width : Nat) (signed : Bool) (s : List Char) :
    Option UInt64 :=
  if bitCount width = 0 then none
  else match radix with
    | .hex => pattern? 16 width ((afterHexMark? s).getD s)
    | .binary => pattern? 2 width ((afterBinaryMark? s).getD s)
    | .decimal =>
      match afterHexMark? s, afterBinaryMark? s with
      | some digits, _ => pattern? 16 width digits
      | none, some digits => pattern? 2 width digits
      | none, none => decimal? width signed s

/-- The floating point format of a literal that is read as a decimal fraction. -/
def fractionFormat? (scalar : Scalar) (radix : Radix) (s : List Char) : Option Ieee.Format :=
  if radix = .decimal ∧ (afterHexMark? s).isNone ∧ (afterBinaryMark? s).isNone then
    match scalar with
    | .float => some .binary32
    | .double => some .binary64
    | .int .. => none
  else none

/-- The pattern of a literal for a numeric field; blanks around it do not count. -/
def scalarPattern? (scalar : Scalar) (radix : Radix) (literal : List Char) : Option UInt64 :=
  let s := trim literal
  match fractionFormat? scalar radix s with
  | some f => (f.read? s).map UInt64.ofNat
  | none => integerPattern? radix scalar.bytes scalar.isSigned s

/-- The value of a bit member; blanks around it do not count. -/
def memberValue? (literal : List Char) : Option UInt64 :=
  integerPattern? .decimal 8 false (trim literal)

/-- A byte by its hexadecimal digits, with a mark or without. -/
def octet? (token : List Char) : Option UInt8 :=
  (naturalBelow? 16 256 ((afterHexMark? token).getD token)).map UInt8.ofNat

/-- Bytes with blanks between them. -/
def octets (literal : List Char) : Except EncodeFailure (List UInt8) :=
  (words literal).mapM fun token =>
    match octet? token with
    | some b => .ok b
    | none => .error (.invalidOctet (String.ofList token))

/-- The ASCII codes of a text, with a question mark for any other character. -/
def ascii (literal : List Char) : List UInt8 :=
  literal.map fun c => if c.toNat < 128 then UInt8.ofNat c.toNat else 63

end Literal

end Datagram
