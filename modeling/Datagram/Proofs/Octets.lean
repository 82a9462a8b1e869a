import Datagram.Octets
import Mathlib.Tactic.Ring

/-! # Bytes as numbers, in both orders

Writing a number in some bytes keeps what fits in them, and any bytes are what is written for the
number that is read from them. -/

namespace Datagram.Octets

theorem toNat_cons (b : UInt8) (bytes : List UInt8) :
    toNat (b :: bytes) = b.toNat + 256 * toNat bytes := rfl

theorem toNat_ofNat (n x : Nat) : toNat (ofNat n x) = x % 256 ^ n := by
  induction n generalizing x with
  | zero => simp [ofNat, toNat, Nat.mod_one]
  | succ n ih =>
    have hb : (UInt8.ofNat x).toNat = x % 256 := UInt8.toNat_ofNat'
    rw [ofNat, toNat_cons, ih, hb, Nat.pow_succ', Nat.mod_mul]

theorem toNat_lt (bytes : List UInt8) : toNat bytes < 256 ^ bytes.length := by
  induction bytes with
  | nil => simp [toNat]
  | cons b bytes ih =>
    have hb := b.toNat_lt
    rw [toNat_cons, List.length_cons, pow_succ]
    omega

theorem ofNat_toNat (bytes : List UInt8) : ofNat bytes.length (toNat bytes) = bytes := by
  induction bytes with
  | nil => rfl
  | cons b bytes ih =>
    have hb := b.toNat_lt
    have hdiv : (b.toNat + 256 * toNat bytes) / 256 = toNat bytes := by omega
    have hmod : UInt8.ofNat (b.toNat + 256 * toNat bytes) = b := by
      rw [← UInt8.toNat_inj, UInt8.toNat_ofNat']
      omega
    rw [List.length_cons, ofNat, toNat_cons, hdiv, ih, hmod]

theorem read_write (e : Endian) (n x : Nat) : read e (write e n x) = x % 256 ^ n := by
  cases e with
  | little => exact toNat_ofNat n x
  | big => rw [read, write, List.reverse_reverse, toNat_ofNat]

theorem write_read (e : Endian) (bytes : List UInt8) :
    write e bytes.length (read e bytes) = bytes := by
  cases e with
  | little => exact ofNat_toNat bytes
  | big =>
    have h := ofNat_toNat bytes.reverse
    rw [List.length_reverse] at h
    rw [read, write, h, List.reverse_reverse]

theorem read_lt (e : Endian) (bytes : List UInt8) : read e bytes < 256 ^ bytes.length := by
  cases e with
  | little => exact toNat_lt bytes
  | big => simpa [read] using toNat_lt bytes.reverse

theorem two_pow_bits (n : Nat) : 256 ^ n = 2 ^ (8 * n) := by
  rw [Nat.pow_mul]

theorem fit_append_zeros (bytes : List UInt8) (k : Nat) :
    fit (bytes.length + k) bytes = bytes ++ List.replicate k 0 := by
  simp [fit, List.take_of_length_le]

theorem fit_length (bytes : List UInt8) : fit bytes.length bytes = bytes := by
  simpa using fit_append_zeros bytes 0

end Datagram.Octets
