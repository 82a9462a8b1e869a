import Datagram.Dict
import Datagram.Text.Blank
import Datagram.Text.Numeral

/-!
Named ranges of bits inside an integer field. Bits are numbered from the least significant one, and
a storage word has 64 of them.
-/

namespace Datagram

open Datagram.Text (naturalBelow? trim)

/-- A range of bit numbers, both ends included. -/
structure Span where
  first : Nat
  last : Nat
  first_le_last : first ≤ last
  last_lt : last < 64
  deriving DecidableEq

namespace Span

/-- The range between two numbers in either order, cut off at the end of the word. -/
def between (a b : Nat) : Span where
  first := min (min a b) 63
  last := min (max a b) 63
  first_le_last := by omega
  last_lt := by omega

/-- One bit number, or two with a colon between them. -/
def read? (s : List Char) : Option Span :=
  let number? := fun t => naturalBelow? 10 UInt32.size (trim t)
  match s.dropWhile (· ≠ ':') with
  | [] => (number? s).map fun a => between a a
  | _ :: after =>
    match number? (s.takeWhile (· ≠ ':')), number? after with
    | some a, some b => some (between a b)
    | _, _ => none

def size (s : Span) : Nat := s.last - s.first + 1

theorem first_add_size (s : Span) : s.first + s.size = s.last + 1 := by
  have := s.first_le_last
  unfold size
  omega

/-- The largest value that the range holds. -/
def max (s : Span) : UInt64 := UInt64.ofNat ((1 <<< s.size) - 1)

def mask (s : Span) : UInt64 := s.max <<< UInt64.ofNat s.first

def extract (s : Span) (word : UInt64) : UInt64 := (word >>> UInt64.ofNat s.first) &&& s.max

/-- The word with the low bits of a value in the range. -/
def insert (s : Span) (word value : UInt64) : UInt64 :=
  (word &&& ~~~s.mask) ||| ((value &&& s.max) <<< UInt64.ofNat s.first)

end Span

structure BitMember where
  name : String
  bit : Option UInt32 := none
  /-- A range as it is written, `start:end`. -/
  range : Option String := none
  value : Option String := none
  description : String := ""
  labels : Option (Dict String) := none
  deriving DecidableEq

namespace BitMember

/-- The written range if it can be read, else the single bit, else bit 0. -/
def span (b : BitMember) : Span :=
  match b.range.bind fun text => Span.read? text.toList with
  | some s => s
  | none =>
    let n := (b.bit.getD 0).toNat
    .between n n

def single (name : String) (bit : UInt32) : BitMember := { name, bit := some bit }

def ofRange (name : String) (first last : Nat) : BitMember :=
  { name
    range := some (String.ofList (Text.decimal first ++ [':'] ++ Text.decimal last)) }

end BitMember

end Datagram
