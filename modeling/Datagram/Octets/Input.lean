import Datagram.Text.Blank
import Datagram.Text.Printable

/-!
Bytes that a user types: pairs of hexadecimal digits, with blanks anywhere between two digits and
marks in front of a word.
-/

namespace Datagram

open Datagram.Text (naturalBelow? quoted words)

inductive HexFault where
  | notAscii
  | oddLength
  | invalidPair (pair : String)
  deriving DecidableEq, Repr

/-- The message, and after it that of its cause if it has one. -/
def HexFault.messages : HexFault → List String
  | .notAscii => ["hex input must be ASCII"]
  | .oddLength => ["odd number of hex digits"]
  | .invalidPair pair => ["invalid hex byte " ++ quoted pair, "invalid digit found in string"]

namespace Octets

def dropLowerMarks : List Char → List Char
  | '0' :: 'x' :: s => dropLowerMarks s
  | s => s

def dropUpperMarks : List Char → List Char
  | '0' :: 'X' :: s => dropUpperMarks s
  | s => s

/-- The characters of all words without the marks in front of them. -/
def inputDigits (s : List Char) : List Char :=
  (words s).flatMap fun w => dropUpperMarks (dropLowerMarks w)

def ofPairs : List Char → Except HexFault (List UInt8)
  | [] => .ok []
  | [_] => .error .oddLength
  | a :: b :: s =>
    match naturalBelow? 16 256 [a, b] with
    | some n => (ofPairs s).map (UInt8.ofNat n :: ·)
    | none => .error (.invalidPair (String.ofList [a, b]))

/-- The bytes of an input. That a character is none of ASCII is reported first, and then an odd number
of characters. -/
def ofInput (s : List Char) : Except HexFault (List UInt8) :=
  let digits := inputDigits s
  if digits.any (128 ≤ ·.toNat) then .error .notAscii
  else if digits.length % 2 = 1 then .error .oddLength
  else ofPairs digits

end Octets

end Datagram
