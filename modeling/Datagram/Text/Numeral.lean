/-!
Numerals in a base of at most 36, read and written. A digit above nine is a letter of either case
when it is read. A mark in front of the digits, `0x` or `0b`, names base sixteen or two.
-/

namespace Datagram.Text

/-- The value of a digit or of an ASCII letter. -/
def digitValue? (c : Char) : Option Nat :=
  if '0' ≤ c ∧ c ≤ '9' then some (c.toNat - 48)
  else if 'a' ≤ c ∧ c ≤ 'z' then some (c.toNat - 87)
  else if 'A' ≤ c ∧ c ≤ 'Z' then some (c.toNat - 55)
  else none

def digit? (base : Nat) (c : Char) : Option Nat := (digitValue? c).filter (· < base)

/-- The number that one or more digits denote. -/
def ofDigits? (base : Nat) (s : List Char) : Option Nat :=
  if s.isEmpty then none
  else s.foldlM (fun n c => (digit? base c).map (n * base + ·)) 0

/-- A natural number, with a plus sign or without. -/
def natural? (base : Nat) : List Char → Option Nat
  | '+' :: s => ofDigits? base s
  | s => ofDigits? base s

/-- A natural number below a bound. -/
def naturalBelow? (base bound : Nat) (s : List Char) : Option Nat :=
  (natural? base s).filter (· < bound)

/-- A decimal integer with at most one sign. -/
def integer? : List Char → Option Int
  | '-' :: s => (ofDigits? 10 s).map (-Int.ofNat ·)
  | s => (natural? 10 s).map Int.ofNat

/-- The text after `0x` or `0X`. -/
def afterHexMark? : List Char → Option (List Char)
  | '0' :: 'x' :: s => some s
  | '0' :: 'X' :: s => some s
  | _ => none

/-- The text after `0b` or `0B`. -/
def afterBinaryMark? : List Char → Option (List Char)
  | '0' :: 'b' :: s => some s
  | '0' :: 'B' :: s => some s
  | _ => none

def decimal (n : Nat) : List Char := Nat.toDigits 10 n

def decimalInt (n : Int) : List Char :=
  if n < 0 then '-' :: decimal n.natAbs else decimal n.natAbs

def binary (n : Nat) : List Char := Nat.toDigits 2 n

def lowerHex (n : Nat) : List Char := Nat.toDigits 16 n

def upperHex (n : Nat) : List Char := (Nat.toDigits 16 n).map Char.toUpper

/-- At least `width` digits, zeros in front. -/
def zeroPadded (width : Nat) (digits : List Char) : List Char := digits.leftpad width '0'

end Datagram.Text
