import Datagram.Field
import Datagram.Text.Numeral

/-!
Numbers as bytes in either order, and bytes as text: two upper case hexadecimal digits for each byte
and a space between two of them.
-/

namespace Datagram

open Datagram.Text (upperHex zeroPadded)

namespace Octets

/-- The `n` low bytes of a number, the least significant first. -/
def ofNat : Nat → Nat → List UInt8
  | 0, _ => []
  | n + 1, x => UInt8.ofNat x :: ofNat n (x / 256)

/-- The number whose bytes these are, the least significant first. -/
def toNat (bytes : List UInt8) : Nat := bytes.foldr (fun b x => b.toNat + 256 * x) 0

def write (e : Endian) (n x : Nat) : List UInt8 :=
  match e with
  | .little => ofNat n x
  | .big => (ofNat n x).reverse

def read (e : Endian) (bytes : List UInt8) : Nat :=
  match e with
  | .little => toNat bytes
  | .big => toNat bytes.reverse

/-- The bytes cut or filled with zeros to a size. -/
def fit (size : Nat) (bytes : List UInt8) : List UInt8 :=
  bytes.take size ++ List.replicate (size - bytes.length) 0

def digits (b : UInt8) : List Char := zeroPadded 2 (upperHex b.toNat)

def dump (bytes : List UInt8) : List Char := List.intercalate [' '] (bytes.map digits)

theorem length_ofNat (n x : Nat) : (ofNat n x).length = n := by
  induction n generalizing x with
  | zero => rfl
  | succ n ih => simp [ofNat, ih]

theorem length_write (e : Endian) (n x : Nat) : (write e n x).length = n := by
  cases e <;> simp [write, length_ofNat]

theorem length_fit (size : Nat) (bytes : List UInt8) : (fit size bytes).length = size := by
  simp only [fit, List.length_append, List.length_take, List.length_replicate]
  omega

end Octets

end Datagram
