import Datagram.Codec.Literal
import Datagram.Codec.Value
import Datagram.Proofs.Octets
import Datagram.Proofs.Text.Numeral

/-! # Literals and the patterns they denote

What an integer literal denotes in its radix, and that the text of a pattern denotes the pattern. -/

namespace Datagram

open Datagram.Text

namespace Literal

/-- The number that the digits of a pattern denote, behind a mark of their base or without one. -/
def digitsValue? : Radix → List Char → Option Nat
  | .hex, s => natural? 16 (((afterHexMark? s).getD s).filter (· ≠ '_'))
  | .binary, s => natural? 2 (((afterBinaryMark? s).getD s).filter (· ≠ '_'))
  | .decimal, _ => none

theorem bitCount_of_le {width : Nat} (h : width ≤ 8) : bitCount width = 8 * width := by
  rw [bitCount, UInt32.size]
  omega

theorem patternBits_of_le {width : Nat} (h : width ≤ 8) : patternBits width = 8 * width := by
  rw [patternBits, bitCount_of_le h]
  omega

theorem bitCount_bytes (s : Scalar) : bitCount s.bytes = s.bits := bitCount_of_le s.bytes_le

theorem patternBits_bytes (s : Scalar) : patternBits s.bytes = s.bits :=
  patternBits_of_le s.bytes_le

theorem intRange_of_le {width : Nat} (hpos : 0 < width) (hle : width ≤ 8) (signed : Bool) :
    intRange width signed = if signed then (-2 ^ (8 * width - 1), 2 ^ (8 * width - 1) - 1)
      else (0, 2 ^ (8 * width) - 1) := by
  have hsign : (8 * width - 1) % 128 = 8 * width - 1 := by omega
  unfold intRange
  rw [bitCount_of_le hle, patternBits_of_le hle, hsign, Nat.one_shiftLeft, Nat.one_shiftLeft]
  simp only [Int.ofNat_eq_natCast, Nat.cast_pow, Nat.cast_ofNat]

theorem integerPattern?_eq_digitsValue? {radix : Radix} (hr : radix ≠ .decimal) (s : Scalar)
    (signed : Bool) (text : List Char) :
    integerPattern? radix s.bytes signed text =
      ((digitsValue? radix text).filter (· < 2 ^ s.bits)).map UInt64.ofNat := by
  have hpos : bitCount s.bytes ≠ 0 := by
    rw [bitCount_bytes]
    exact (Scalar.bits_pos s).ne'
  unfold integerPattern?
  rw [if_neg hpos]
  cases radix with
  | decimal => exact absurd rfl hr
  | hex => simp only [pattern?, naturalBelow?, digitsValue?, patternBits_bytes, Nat.one_shiftLeft]
  | binary => simp only [pattern?, naturalBelow?, digitsValue?, patternBits_bytes, Nat.one_shiftLeft]

theorem integerPattern?_of_integer? {n : Int} {text : List Char} (h : integer? text = some n)
    (s : Scalar) (signed : Bool) :
    integerPattern? .decimal s.bytes signed text = decimal? s.bytes signed text := by
  have hpos : bitCount s.bytes ≠ 0 := by
    rw [bitCount_bytes]
    exact (Scalar.bits_pos s).ne'
  obtain ⟨hx, hb⟩ := no_mark_of_integer? h
  unfold integerPattern?
  rw [if_neg hpos]
  simp only [hx, hb]

/-- The numbers that an integer type holds. -/
def InRange (signed : Bool) (w : Width) (n : Int) : Prop :=
  if signed then -2 ^ (8 * w.bytes - 1) ≤ n ∧ n < 2 ^ (8 * w.bytes - 1)
  else 0 ≤ n ∧ n < 2 ^ (8 * w.bytes)

theorem inRange_iff (signed : Bool) (w : Width) (n : Int) :
    ((intRange w.bytes signed).1 ≤ n ∧ n ≤ (intRange w.bytes signed).2) ↔ InRange signed w n := by
  have hpos : 0 < w.bytes := Scalar.bytes_pos (.int signed w)
  have hle : w.bytes ≤ 8 := Scalar.bytes_le (.int signed w)
  rw [intRange_of_le hpos hle, InRange]
  cases signed with
  | true =>
    simp only [if_true]
    omega
  | false =>
    simp only [Bool.false_eq_true, if_false]
    omega

theorem decimal?_eq_some {signed : Bool} {w : Width} {n : Int} {text : List Char}
    (h : integer? text = some n) (u : UInt64) :
    decimal? w.bytes signed text = some u ↔
      InRange signed w n ∧ UInt64.ofNat (BitVec.ofInt (8 * w.bytes) n).toNat = u := by
  have hp : patternBits w.bytes = 8 * w.bytes := patternBits_bytes (.int signed w)
  unfold decimal?
  simp only [h, Option.bind_some]
  by_cases hr : InRange signed w n
  · rw [if_pos ((inRange_iff signed w n).mpr hr), hp, Option.some.injEq]
    exact (and_iff_right hr).symm
  · rw [if_neg fun hi => hr ((inRange_iff signed w n).mp hi)]
    simp [hr]

theorem lt_of_inRange {signed : Bool} {w : Width} {n : Nat} (h : InRange signed w n) :
    n < 2 ^ (8 * w.bytes) := by
  cases signed with
  | true =>
    have hhalf : n < 2 ^ (8 * w.bytes - 1) := by exact_mod_cast h.2
    exact Nat.lt_of_lt_of_le hhalf (Nat.pow_le_pow_right (by decide) (Nat.sub_le _ _))
  | false => exact_mod_cast h.2

/-- A natural number that an integer type holds has itself as its pattern. -/
theorem integerPattern?_of_inRange {signed : Bool} {w : Width} {n : Nat} {text : List Char}
    (h : integer? text = some (n : Int)) (hn : InRange signed w n) :
    integerPattern? .decimal w.bytes signed text = some (UInt64.ofNat n) := by
  have hpattern : (BitVec.ofInt (8 * w.bytes) n).toNat = n := by
    rw [BitVec.ofInt_natCast, BitVec.toNat_ofNat, Nat.mod_eq_of_lt (lt_of_inRange hn)]
  rw [show w.bytes = (Scalar.int signed w).bytes from rfl, integerPattern?_of_integer? h]
  exact (decimal?_eq_some h _).mpr ⟨hn, congrArg UInt64.ofNat hpattern⟩

/-- So has one that is written in hexadecimal behind a mark. -/
theorem integerPattern?_of_hexMark {signed : Bool} {w : Width} {n : Nat} {text digits : List Char}
    (hmark : afterHexMark? text = some digits) (h : natural? 16 digits = some n)
    (hn : InRange signed w n) :
    integerPattern? .decimal w.bytes signed text = some (UInt64.ofNat n) := by
  have hbits : patternBits w.bytes = 8 * w.bytes := patternBits_bytes (.int signed w)
  have hpos : bitCount w.bytes ≠ 0 := by
    rw [show bitCount w.bytes = _ from bitCount_bytes (.int signed w)]
    exact (Scalar.bits_pos _).ne'
  have hpattern : pattern? 16 w.bytes digits = some (UInt64.ofNat n) := by
    rw [pattern?, filter_underscore_of_natural? h, naturalBelow?, h, hbits, Nat.one_shiftLeft,
      Option.filter_some, if_pos (decide_eq_true (lt_of_inRange hn)), Option.map_some]
  rw [integerPattern?, if_neg hpos]
  simp only [hmark]
  exact hpattern

theorem inRange_zero (signed : Bool) (w : Width) : InRange signed w 0 := by
  cases signed with
  | true => exact ⟨Int.neg_nonpos_of_nonneg (Int.pow_nonneg (by decide)), Int.pow_pos (by decide)⟩
  | false => exact ⟨Int.le_refl 0, Int.pow_pos (by decide)⟩

theorem scalarPattern?_int (signed : Bool) (w : Width) (radix : Radix) (literal : List Char) :
    scalarPattern? (.int signed w) radix literal =
      integerPattern? radix w.bytes signed (trim literal) := by
  have hfraction : fractionFormat? (.int signed w) radix (trim literal) = none := by
    simp [fractionFormat?]
  simp only [scalarPattern?, hfraction]
  rfl

theorem memberValue?_of_integer? {n : Nat} {literal : List Char}
    (h : integer? (trim literal) = some (n : Int)) (hn : n < 2 ^ 64) :
    memberValue? literal = some (UInt64.ofNat n) := by
  have hrange : InRange false .w64 n := ⟨Int.natCast_nonneg n, by exact_mod_cast hn⟩
  exact integerPattern?_of_inRange h hrange

end Literal

namespace Value

theorem integer?_ofInt {signed : Bool} {w : Width} {n : Int} (h : Literal.InRange signed w n) :
    integer? (.scalar (.int signed w) (BitVec.ofInt (Scalar.int signed w).bits n)) = some n := by
  have hb : (Scalar.int signed w).bits = 8 * w.bytes := rfl
  have hpos := Scalar.bits_pos (.int signed w)
  cases signed with
  | true =>
    rw [integer?, Option.some.injEq, hb]
    exact BitVec.toInt_ofInt_eq_self (hb ▸ hpos) h.1 h.2
  | false =>
    obtain ⟨h0, hlt⟩ := h
    rw [integer?, BitVec.toNat_ofInt, hb, Option.some.injEq]
    have : n % ((2 ^ (8 * w.bytes) : Nat) : Int) = n := Int.emod_eq_of_lt h0 (by exact_mod_cast hlt)
    omega

/-- An integer pattern is that of the number that it stands for. -/
theorem inRange_of_integer? {signed : Bool} {w : Width} {p : BitVec (Scalar.int signed w).bits}
    {n : Int} (h : integer? (.scalar (.int signed w) p) = some n) :
    Literal.InRange signed w n ∧ BitVec.ofInt (Scalar.int signed w).bits n = p := by
  cases signed with
  | true =>
    rw [integer?, Option.some.injEq] at h
    subst h
    exact ⟨⟨BitVec.le_toInt p, BitVec.toInt_lt⟩, BitVec.ofInt_toInt⟩
  | false =>
    rw [integer?, Option.some.injEq] at h
    subst h
    refine ⟨⟨Int.natCast_nonneg _, ?_⟩, by simp⟩
    exact_mod_cast p.isLt

theorem display_of_integer? {signed : Bool} {w : Width} {p : BitVec (Scalar.int signed w).bits}
    {n : Int} (h : integer? (.scalar (.int signed w) p) = some n) :
    display (.scalar (.int signed w) p) = String.ofList (decimalInt n) := by
  cases signed <;>
  · rw [integer?, Option.some.injEq] at h
    subst h
    rfl

end Value

end Datagram
