import Datagram.Ieee.Format
import Datagram.Text.Numeral

/-!
The text of a floating point number: the fewest decimal digits that read back as the number, and of
several such texts the one nearest to it. The notation is positional, without an exponent.
-/

namespace Datagram.Ieee

open Datagram.Text (decimal zeroPadded)

/-- The open or closed interval of what rounds to a number, all in quarters of a common unit. -/
structure Neighbourhood where
  low : Nat
  value : Nat
  high : Nat
  closed : Bool

def Neighbourhood.Holds (n : Neighbourhood) (x : Nat) : Prop :=
  if n.closed then n.low ≤ x ∧ x ≤ n.high else n.low < x ∧ x < n.high

instance (n : Neighbourhood) (x : Nat) : Decidable (n.Holds x) :=
  decidable_of_iff (if n.closed then n.low ≤ x ∧ x ≤ n.high else n.low < x ∧ x < n.high) Iff.rfl

/-- What rounds to `m * 2 ^ q / 2 ^ scale`, in units of `10 ^ -scale`, in which every number of the
format is whole. Below a power of two the numbers lie twice as dense. -/
def Format.neighbourhood (f : Format) (m q : Nat) : Neighbourhood :=
  let unit := Nat.pow 5 f.scale <<< q
  let below := if m = 1 <<< f.fractionBits ∧ q ≠ 0 then 1 else 2
  { low := (4 * m - below) * unit
    value := 4 * m * unit
    high := (4 * m + 2) * unit
    closed := m % 2 == 0 }

/-- The first multiple `(k, p)` of a power of ten, `k * 10 ^ p`, in a neighbourhood, where coarse
powers are tried first; of two multiples in it the nearer one, and the upper one of two as near. -/
def Neighbourhood.coarsest (n : Neighbourhood) : Nat → Nat × Nat
  | 0 => (n.value / 4, 0)
  | p + 1 =>
    let step := 4 * Nat.pow 10 (p + 1)
    let k := n.value / step
    let inBelow := decide (n.Holds (k * step))
    let inAbove := decide (n.Holds ((k + 1) * step))
    if inBelow && (!inAbove || 2 * (n.value - k * step) < step) then (k, p + 1)
    else if inAbove then (k + 1, p + 1)
    else n.coarsest p

/-- The positional text of `k * 10 ^ p / 10 ^ scale`. -/
def positional (k p scale : Nat) : List Char :=
  if scale ≤ p then decimal k ++ List.replicate (p - scale) '0'
  else
    let digits := zeroPadded (scale - p + 1) (decimal k)
    let whole := digits.length - (scale - p)
    digits.take whole ++ ['.'] ++ digits.drop whole

def Format.magnitudeText (f : Format) (m q : Nat) : List Char :=
  if m = 0 then ['0']
  else
    let n := f.neighbourhood m q
    let (k, p) := n.coarsest (decimal n.high).length
    positional k p f.scale

def sign (negative : Bool) : List Char := if negative then ['-'] else []

def Format.text (f : Format) (pattern : Nat) : List Char :=
  match f.decode pattern with
  | .nan => "NaN".toList
  | .infinite negative => sign negative ++ "inf".toList
  | .finite negative m q => sign negative ++ f.magnitudeText m q

end Datagram.Ieee
