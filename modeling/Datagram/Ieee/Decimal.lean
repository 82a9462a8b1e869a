import Datagram.Ieee.Format
import Datagram.Text.Numeral

/-!
Reading a floating point number: decimal digits with at most one point, an exponent if any, or the
name of an infinity or of a NaN in either case. The result is the number of the format nearest to
what the text denotes.
-/

namespace Datagram.Ieee

open Datagram.Text (ofDigits? integer?)

/-- An optional sign, and the text after it. -/
def splitSign : List Char → Bool × List Char
  | '-' :: s => (true, s)
  | '+' :: s => (false, s)
  | s => (false, s)

/-- The magnitude nearest to `n * 10 ^ e`, where `n` has at most `digits` digits. Far outside the
range of the format no power is computed. -/
def Format.roundDecimal (f : Format) (n : Nat) (digits : Nat) (e : Int) : Nat :=
  if n = 0 then 0
  else if e > f.bias + 2 then f.infinity
  else if e + digits < -(f.scale + 2 : Nat) then 0
  else f.round (n * Nat.pow 10 e.toNat) (Nat.pow 10 (-e).toNat)

/-- The exponent after the digits: nothing, or `e` and an integer. -/
def exponent? : List Char → Option Int
  | [] => some 0
  | c :: s => if c = 'e' ∨ c = 'E' then integer? s else none

/-- Digits with at most one point among them, and what follows. -/
def splitPoint (s : List Char) : List Char × List Char × List Char :=
  let whole := s.takeWhile Char.isDigit
  match s.dropWhile Char.isDigit with
  | '.' :: r => (whole, r.takeWhile Char.isDigit, r.dropWhile Char.isDigit)
  | r => (whole, [], r)

def Format.magnitude? (f : Format) (s : List Char) : Option Nat :=
  let (whole, fraction, rest) := splitPoint s
  let digits := whole ++ fraction
  match ofDigits? 10 digits, exponent? rest with
  | some n, some e => some (f.roundDecimal n digits.length (e - fraction.length))
  | _, _ => none

def Format.named? (f : Format) (s : List Char) : Option Nat :=
  let name := String.ofList (s.map Char.toLower)
  if name = "inf" ∨ name = "infinity" then some f.infinity
  else if name = "nan" then some f.quietNaN
  else none

/-- The bit pattern of the number that a text denotes. -/
def Format.read? (f : Format) (s : List Char) : Option Nat :=
  let (negative, s) := splitSign s
  (f.magnitude? s <|> f.named? s).map (f.signed negative)

end Datagram.Ieee
