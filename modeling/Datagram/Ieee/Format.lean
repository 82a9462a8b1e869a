/-!
Binary interchange formats of floating point numbers. A number is held as its bit pattern, and what
a pattern means is exact arithmetic on naturals: a finite number is `m * 2 ^ q / 2 ^ scale`, where
`scale` belongs to the format. Rounding gives the nearest number of the format, and of two nearest
ones the one with the even pattern.
-/

namespace Datagram.Ieee

/-- The widths of the exponent and of the fraction, in bits. -/
structure Format where
  exponentBits : Nat
  fractionBits : Nat

def Format.binary32 : Format := ⟨8, 23⟩

def Format.binary64 : Format := ⟨11, 52⟩

inductive Datum where
  | nan
  | infinite (negative : Bool)
  | finite (negative : Bool) (m q : Nat)
  deriving DecidableEq, Repr

namespace Format

def bias (f : Format) : Nat := (1 <<< (f.exponentBits - 1)) - 1

/-- The least positive number is `1 / 2 ^ scale`. -/
def scale (f : Format) : Nat := f.bias + f.fractionBits - 1

/-- The weight of the sign bit; the bits below it are the magnitude. -/
def signBit (f : Format) : Nat := 1 <<< (f.exponentBits + f.fractionBits)

def infinity (f : Format) : Nat := ((1 <<< f.exponentBits) - 1) <<< f.fractionBits

def quietNaN (f : Format) : Nat := f.infinity + 1 <<< (f.fractionBits - 1)

def signed (f : Format) (negative : Bool) (magnitude : Nat) : Nat :=
  if negative then f.signBit + magnitude else magnitude

def decode (f : Format) (pattern : Nat) : Datum :=
  let negative := pattern / f.signBit % 2 == 1
  let hidden := 1 <<< f.fractionBits
  let exponent := pattern / hidden % (1 <<< f.exponentBits)
  let fraction := pattern % hidden
  if exponent = (1 <<< f.exponentBits) - 1 then
    if fraction = 0 then .infinite negative else .nan
  else if exponent = 0 then .finite negative fraction 0
  else .finite negative (hidden + fraction) (exponent - 1)

end Format

/-- The natural number nearest to a quotient, the even one of two. -/
def roundQuotient (num den : Nat) : Nat :=
  let k := num / den
  let rest := num % den
  if 2 * rest < den then k
  else if den < 2 * rest then k + 1
  else k + k % 2

/-- The magnitude nearest to a quotient. A significand that rounds up to the next power of two
carries into the exponent, which is what the sum of the two parts does. -/
def Format.round (f : Format) (num den : Nat) : Nat :=
  let scaled := num <<< f.scale
  let q := Nat.log2 (scaled / den) - f.fractionBits
  min (q <<< f.fractionBits + roundQuotient scaled (den <<< q)) f.infinity

def Format.ofInt (f : Format) (n : Int) : Nat := f.signed (n < 0) (f.round n.natAbs 1)

/-- The pattern in format `g` of the number that a pattern has in format `f`. -/
def Format.convert (f g : Format) (pattern : Nat) : Nat :=
  match f.decode pattern with
  | .nan => g.quietNaN
  | .infinite negative => g.signed negative g.infinity
  | .finite negative m q => g.signed negative (g.round (m <<< q) (1 <<< f.scale))

end Datagram.Ieee
