import Datagram.BitMember
import Mathlib.Tactic.Ring

/-! # Bits of a storage word

What a span takes from a word are the word's bits from its first to its last bit, and putting them
back changes nothing. Putting a value behind a number that lies in front of the span adds the two. -/

namespace Datagram.Span

theorem size_le (s : Span) : s.size ≤ 64 := by
  have := s.last_lt
  have := s.first_add_size
  omega

theorem toNat_max (s : Span) : s.max.toNat = 2 ^ s.size - 1 := by
  have hle : 2 ^ s.size ≤ 2 ^ 64 := Nat.pow_le_pow_right (by decide) s.size_le
  have hpos : 0 < 2 ^ s.size := Nat.two_pow_pos s.size
  unfold max
  rw [UInt64.toNat_ofNat', Nat.one_shiftLeft, Nat.mod_eq_of_lt]
  omega

/-- The bit of a word with a number. -/
def bit (w : UInt64) (i : Nat) : Bool := w.toBitVec.getLsbD i

theorem bit_ext {v w : UInt64} (h : ∀ i, i < 64 → bit v i = bit w i) : v = w :=
  UInt64.eq_of_toBitVec_eq (BitVec.eq_of_getLsbD_eq h)

theorem bit_eq_testBit (w : UInt64) (i : Nat) : bit w i = w.toNat.testBit i := rfl

theorem bit_and (v w : UInt64) (i : Nat) : bit (v &&& w) i = (bit v i && bit w i) := by
  simp [bit]

theorem bit_or (v w : UInt64) (i : Nat) : bit (v ||| w) i = (bit v i || bit w i) := by
  simp [bit]

theorem bit_not (w : UInt64) {i : Nat} (hi : i < 64) : bit (~~~w) i = !bit w i := by
  simp [bit, hi]

theorem bit_shiftLeft (w : UInt64) {k i : Nat} (hk : k < 64) (hi : i < 64) :
    bit (w <<< UInt64.ofNat k) i = (decide (k ≤ i) && bit w (i - k)) := by
  have hmod : k % 2 ^ 64 % 64 = k := by omega
  rw [bit_eq_testBit, UInt64.toNat_shiftLeft, UInt64.toNat_ofNat', hmod, Nat.testBit_mod_two_pow,
    Nat.testBit_shiftLeft, bit_eq_testBit]
  simp [hi]

theorem bit_shiftRight (w : UInt64) {k : Nat} (hk : k < 64) (i : Nat) :
    bit (w >>> UInt64.ofNat k) i = bit w (k + i) := by
  have hmod : k % 2 ^ 64 % 64 = k := by omega
  rw [bit_eq_testBit, UInt64.toNat_shiftRight, UInt64.toNat_ofNat', hmod, Nat.testBit_shiftRight,
    bit_eq_testBit]

theorem first_lt (s : Span) : s.first < 64 := Nat.lt_of_le_of_lt s.first_le_last s.last_lt

theorem bit_max (s : Span) (i : Nat) : bit s.max i = decide (i < s.size) := by
  rw [bit_eq_testBit, toNat_max, Nat.testBit_two_pow_sub_one]

theorem bit_mask (s : Span) {i : Nat} (hi : i < 64) :
    bit s.mask i = decide (s.first ≤ i ∧ i ≤ s.last) := by
  have := s.first_add_size
  rw [mask, bit_shiftLeft _ s.first_lt hi, bit_max, ← Bool.decide_and]
  apply decide_eq_decide.mpr
  omega

theorem bit_extract (s : Span) (w : UInt64) (i : Nat) :
    bit (s.extract w) i = (decide (i < s.size) && bit w (s.first + i)) := by
  rw [extract, bit_and, bit_shiftRight _ s.first_lt, bit_max, Bool.and_comm]

theorem bit_insert (s : Span) (w v : UInt64) {i : Nat} (hi : i < 64) :
    bit (s.insert w v) i = if s.first ≤ i ∧ i ≤ s.last then bit v (i - s.first) else bit w i := by
  have hadd := s.first_add_size
  rw [insert, bit_or, bit_and, bit_not _ hi, bit_mask s hi, bit_shiftLeft _ s.first_lt hi, bit_and,
    bit_max]
  by_cases h : s.first ≤ i ∧ i ≤ s.last
  · have hsize : i - s.first < s.size := by omega
    simp [h, hsize]
  · rw [if_neg h]
    by_cases hi : s.first ≤ i
    · have hsize : ¬ i - s.first < s.size := by omega
      simp [h, hsize]
    · simp [hi]

theorem insert_extract (s : Span) (w : UInt64) : s.insert w (s.extract w) = w := by
  apply bit_ext
  intro i hi
  rw [bit_insert s _ _ hi]
  by_cases h : s.first ≤ i ∧ i ≤ s.last
  · have hadd := s.first_add_size
    have hs : i - s.first < s.size := by omega
    rw [if_pos h, bit_extract, decide_eq_true hs, Bool.true_and, Nat.add_sub_cancel' h.1]
  · rw [if_neg h]

/-! ## Words as numbers -/

theorem toNat_extract (s : Span) (w : UInt64) :
    (s.extract w).toNat = w.toNat / 2 ^ s.first % 2 ^ s.size := by
  apply Nat.eq_of_testBit_eq
  intro i
  rw [← bit_eq_testBit, bit_extract, Nat.testBit_mod_two_pow, Nat.testBit_div_two_pow, bit_eq_testBit,
    Nat.add_comm]

/-- Behind a number that lies in front of the span, the value counts with its low bits. -/
theorem toNat_insert (s : Span) {w : UInt64} (v : UInt64) (hw : w.toNat < 2 ^ s.first) :
    (s.insert w v).toNat = w.toNat + v.toNat % 2 ^ s.size * 2 ^ s.first := by
  have hadd := s.first_add_size
  have hlast := s.last_lt
  apply Nat.eq_of_testBit_eq
  intro i
  rw [Nat.add_comm, Nat.mul_comm, Nat.testBit_two_pow_mul_add _ hw, Nat.testBit_mod_two_pow]
  by_cases hi : i < 64
  · rw [← bit_eq_testBit, bit_insert s w v hi, bit_eq_testBit, bit_eq_testBit]
    by_cases hfirst : i < s.first
    · have hout : ¬ (s.first ≤ i ∧ i ≤ s.last) := by omega
      rw [if_neg hout, if_pos hfirst]
    · rw [if_neg hfirst]
      by_cases hin : i ≤ s.last
      · have hsize : i - s.first < s.size := by omega
        rw [if_pos ⟨by omega, hin⟩, decide_eq_true hsize, Bool.true_and]
      · have hsize : ¬ i - s.first < s.size := by omega
        have hpow : 2 ^ s.first ≤ 2 ^ i := Nat.pow_le_pow_right (by decide) (by omega)
        rw [if_neg fun h => hin h.2, decide_eq_false hsize, Bool.false_and]
        exact Nat.testBit_lt_two_pow (Nat.lt_of_lt_of_le hw hpow)
  · have hpow : 2 ^ 64 ≤ 2 ^ i := Nat.pow_le_pow_right (by decide) (by omega)
    have hsize : ¬ i - s.first < s.size := by omega
    rw [if_neg (by omega), decide_eq_false hsize, Bool.false_and]
    exact Nat.testBit_lt_two_pow (Nat.lt_of_lt_of_le (s.insert w v).toNat_lt hpow)

end Datagram.Span
