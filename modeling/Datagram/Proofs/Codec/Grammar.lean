import Datagram.Proofs.Codec.Literal
import Datagram.Proofs.Text.Grammar
import Mathlib.Data.List.Forall2

/-! # The grammar of literals

An integer literal is a pattern by its digits, behind a mark of their base or without one, or in the
decimal radix a number in the range of the type. Reading accepts just these, and a pattern has no more
bits than the type. A literal of bytes has a word for each of them. -/

namespace Datagram

open Datagram.Text

/-! ## Literals -/

namespace Literal

/-- The digits of a pattern of some bytes. Underscores among them do not count. -/
def Body (base width : Nat) (s : List Char) (p : Nat) : Prop :=
  Natural base (s.filter (· ≠ '_')) p ∧ p ≤ 2 ^ (8 * width) - 1

/-- The same behind a mark of the base. -/
def MarkedBody (base width : Nat) (s : List Char) (p : Nat) : Prop :=
  ∃ mark digits, s = mark ++ digits ∧ Mark base mark ∧ Body base width digits p

/-- The numbers that some bytes hold. -/
def Bounded (width : Nat) (signed : Bool) (n : Int) : Prop :=
  if signed then -2 ^ (8 * width - 1) ≤ n ∧ n ≤ 2 ^ (8 * width - 1) - 1
  else 0 ≤ n ∧ n ≤ 2 ^ (8 * width) - 1

/-- The integer literals in a radix for some bytes, and the patterns that they denote. -/
inductive Denotes (width : Nat) (signed : Bool) : Radix → List Char → Nat → Prop where
  | hex {s p} : Body 16 width s p → Denotes width signed .hex s p
  | markedHex {s p} : MarkedBody 16 width s p → Denotes width signed .hex s p
  | binary {s p} : Body 2 width s p → Denotes width signed .binary s p
  | markedBinary {s p} : MarkedBody 2 width s p → Denotes width signed .binary s p
  | number {s n} {p : Nat} : Integer s n → Bounded width signed n →
      (p : Int) = n % 2 ^ (8 * width) → Denotes width signed .decimal s p
  | hexPattern {s p} : MarkedBody 16 width s p → Denotes width signed .decimal s p
  | binaryPattern {s p} : MarkedBody 2 width s p → Denotes width signed .decimal s p

variable {width p : Nat} {signed : Bool} {s t : List Char}

theorem Body.lt {base : Nat} (h : Body base width s p) : p < 2 ^ (8 * width) := by
  have hpos : 0 < 2 ^ (8 * width) := Nat.two_pow_pos _
  have := h.2
  omega

theorem MarkedBody.lt {base : Nat} (h : MarkedBody base width s p) : p < 2 ^ (8 * width) := by
  obtain ⟨_, _, _, _, hbody⟩ := h
  exact hbody.lt

theorem lt_of_emod {n : Int} (h : (p : Int) = n % 2 ^ (8 * width)) : p < 2 ^ (8 * width) := by
  have hlt : n % 2 ^ (8 * width) < 2 ^ (8 * width) := Int.emod_lt_of_pos n (by positivity)
  rw [← h] at hlt
  exact_mod_cast hlt

theorem Denotes.lt {radix : Radix} (h : Denotes width signed radix s p) : p < 2 ^ (8 * width) := by
  cases h with
  | hex h => exact h.lt
  | markedHex h => exact h.lt
  | binary h => exact h.lt
  | markedBinary h => exact h.lt
  | number _ _ h => exact lt_of_emod h
  | hexPattern h => exact h.lt
  | binaryPattern h => exact h.lt

theorem toNat_ofNat_of_lt (hle : width ≤ 8) (h : p < 2 ^ (8 * width)) : (UInt64.ofNat p).toNat = p := by
  have hword : 2 ^ (8 * width) ≤ 2 ^ 64 := Nat.pow_le_pow_right (by decide) (by omega)
  exact UInt64.toNat_ofNat_of_lt' (Nat.lt_of_lt_of_le h hword)

theorem map_pattern?_eq_some_iff {base : Nat} (hb : base ≤ 16) (hle : width ≤ 8) :
    (pattern? base width s).map UInt64.toNat = some p ↔ Body base width s p := by
  have hpos : 0 < 2 ^ (8 * width) := Nat.two_pow_pos _
  rw [pattern?, patternBits_of_le hle, Nat.one_shiftLeft, naturalBelow?, Option.map_map,
    Option.map_eq_some_iff]
  simp only [Option.filter_eq_some_iff, decide_eq_true_eq, natural?_eq_some_iff hb,
    Function.comp_apply]
  constructor
  · rintro ⟨n, ⟨hn, hlt⟩, rfl⟩
    rw [toNat_ofNat_of_lt hle hlt]
    exact ⟨hn, by omega⟩
  · rintro h
    exact ⟨p, ⟨h.1, h.lt⟩, toNat_ofNat_of_lt hle h.lt⟩

theorem map_decimal?_eq_some_iff (hpos : 0 < width) (hle : width ≤ 8) :
    (decimal? width signed s).map UInt64.toNat = some p ↔
      ∃ n, Integer s n ∧ Bounded width signed n ∧ (p : Int) = n % 2 ^ (8 * width) := by
  have hbounded : ∀ n, ((intRange width signed).1 ≤ n ∧ n ≤ (intRange width signed).2) ↔
      Bounded width signed n := by
    intro n
    rw [intRange_of_le hpos hle, Bounded]
    cases signed <;> exact Iff.rfl
  have hpattern : ∀ n : Int, (UInt64.ofNat (BitVec.ofInt (8 * width) n).toNat).toNat = p ↔
      (p : Int) = n % 2 ^ (8 * width) := by
    intro n
    have hmod : ((BitVec.ofInt (8 * width) n).toNat : Int) = n % 2 ^ (8 * width) := by
      have hnonneg : 0 ≤ n % 2 ^ (8 * width) := Int.emod_nonneg n (by positivity)
      rw [BitVec.toNat_ofInt, Nat.cast_pow, Nat.cast_ofNat, Int.toNat_of_nonneg hnonneg]
    rw [toNat_ofNat_of_lt hle (BitVec.isLt _), ← hmod, Nat.cast_inj, eq_comm]
  rw [decimal?, patternBits_of_le hle]
  simp only [Option.map_eq_some_iff, Option.bind_eq_some_iff, Option.ite_none_right_eq_some,
    integer?_eq_some_iff, hbounded, Option.some.injEq]
  constructor
  · rintro ⟨_, ⟨n, hn, hrange, rfl⟩, hp⟩
    exact ⟨n, hn, hrange, (hpattern n).mp hp⟩
  · rintro ⟨n, hn, hrange, hp⟩
    exact ⟨_, ⟨n, hn, hrange, rfl⟩, (hpattern n).mpr hp⟩

/-- The digits behind a mark where there is one. -/
theorem body_getD_iff {base : Nat} {digits : Option (List Char)}
    (h : ∀ t, digits = some t ↔ ∃ mark, Mark base mark ∧ s = mark ++ t) :
    Body base width (digits.getD s) p ↔ Body base width s p ∨ MarkedBody base width s p := by
  cases hd : digits with
  | none =>
    rw [Option.getD_none]
    refine ⟨Or.inl, ?_⟩
    rintro (hbody | ⟨mark, t, hs, hm, _⟩)
    · exact hbody
    · rw [(h t).mpr ⟨mark, hm, hs⟩] at hd
      cases hd
  | some t =>
    rw [Option.getD_some]
    obtain ⟨mark, hm, hs⟩ := (h t).mp hd
    refine ⟨fun hbody => Or.inr ⟨mark, t, hs, hm, hbody⟩, ?_⟩
    rintro (hbody | ⟨mark', t', hs', hm', hbody⟩)
    · exact absurd (hs ▸ hbody.1) (not_natural_of_mark hm)
    · rw [(h t').mpr ⟨mark', hm', hs'⟩] at hd
      exact Option.some.inj hd ▸ hbody

theorem markedBody_iff {base : Nat} {digits : Option (List Char)}
    (h : ∀ t, digits = some t ↔ ∃ mark, Mark base mark ∧ s = mark ++ t) :
    MarkedBody base width s p ↔ ∃ t, digits = some t ∧ Body base width t p := by
  constructor
  · rintro ⟨mark, t, hs, hm, hbody⟩
    exact ⟨t, (h t).mpr ⟨mark, hm, hs⟩, hbody⟩
  · rintro ⟨t, hd, hbody⟩
    obtain ⟨mark, hm, hs⟩ := (h t).mp hd
    exact ⟨mark, t, hs, hm, hbody⟩

theorem denotes_hex_iff : Denotes width signed .hex s p ↔
    Body 16 width ((afterHexMark? s).getD s) p := by
  rw [body_getD_iff fun t => afterHexMark?_eq_some_iff]
  constructor
  · intro h
    cases h with
    | hex h => exact Or.inl h
    | markedHex h => exact Or.inr h
  · rintro (h | h)
    · exact .hex h
    · exact .markedHex h

theorem denotes_binary_iff : Denotes width signed .binary s p ↔
    Body 2 width ((afterBinaryMark? s).getD s) p := by
  rw [body_getD_iff fun t => afterBinaryMark?_eq_some_iff]
  constructor
  · intro h
    cases h with
    | binary h => exact Or.inl h
    | markedBinary h => exact Or.inr h
  · rintro (h | h)
    · exact .binary h
    · exact .markedBinary h

theorem denotes_decimal_iff : Denotes width signed .decimal s p ↔
    (∃ n, Integer s n ∧ Bounded width signed n ∧ (p : Int) = n % 2 ^ (8 * width)) ∨
      (∃ t, afterHexMark? s = some t ∧ Body 16 width t p) ∨
      ∃ t, afterBinaryMark? s = some t ∧ Body 2 width t p := by
  rw [← markedBody_iff fun t => afterHexMark?_eq_some_iff,
    ← markedBody_iff fun t => afterBinaryMark?_eq_some_iff]
  constructor
  · intro h
    cases h with
    | number hn hrange hp => exact Or.inl ⟨_, hn, hrange, hp⟩
    | hexPattern h => exact Or.inr (Or.inl h)
    | binaryPattern h => exact Or.inr (Or.inr h)
  · rintro (⟨n, hn, hrange, hp⟩ | h | h)
    · exact .number hn hrange hp
    · exact .hexPattern h
    · exact .binaryPattern h

theorem map_integerPattern?_decimal (hpos : 0 < width) (hle : width ≤ 8) :
    (integerPattern? .decimal width signed s).map UInt64.toNat = some p ↔
      Denotes width signed .decimal s p := by
  have hbits : bitCount width ≠ 0 := by
    rw [bitCount_of_le hle]
    omega
  have hunmarked : ∀ n, Integer s n → afterHexMark? s = none ∧ afterBinaryMark? s = none :=
    fun n hn => no_mark_of_integer? (integer?_eq_some_iff.mpr hn)
  rw [integerPattern?, if_neg hbits, denotes_decimal_iff]
  cases hx : afterHexMark? s with
  | some t =>
    dsimp only
    rw [map_pattern?_eq_some_iff (by decide) hle]
    constructor
    · exact fun h => Or.inr (Or.inl ⟨t, rfl, h⟩)
    · rintro (⟨n, hn, _⟩ | ⟨_, ⟨rfl⟩, h⟩ | ⟨t', hb, _⟩)
      · rw [(hunmarked n hn).1] at hx
        cases hx
      · exact h
      · rw [no_binaryMark_of_hexMark hx] at hb
        cases hb
  | none =>
    cases hb : afterBinaryMark? s with
    | some t =>
      dsimp only
      rw [map_pattern?_eq_some_iff (by decide) hle]
      constructor
      · exact fun h => Or.inr (Or.inr ⟨t, rfl, h⟩)
      · rintro (⟨n, hn, _⟩ | ⟨_, h, _⟩ | ⟨_, ⟨rfl⟩, h⟩)
        · rw [(hunmarked n hn).2] at hb
          cases hb
        · cases h
        · exact h
    | none =>
      dsimp only
      rw [map_decimal?_eq_some_iff hpos hle]
      simp

theorem map_integerPattern?_eq_some_iff (hpos : 0 < width) (hle : width ≤ 8) {radix : Radix} :
    (integerPattern? radix width signed s).map UInt64.toNat = some p ↔
      Denotes width signed radix s p := by
  have hbits : bitCount width ≠ 0 := by
    rw [bitCount_of_le hle]
    omega
  cases radix with
  | decimal => exact map_integerPattern?_decimal hpos hle
  | hex =>
    rw [integerPattern?, if_neg hbits, denotes_hex_iff]
    exact map_pattern?_eq_some_iff (by decide) hle
  | binary =>
    rw [integerPattern?, if_neg hbits, denotes_binary_iff]
    exact map_pattern?_eq_some_iff (by decide) hle

/-- In some bytes of a storage word an integer literal is read just if the grammar has it, as the
pattern that it denotes there, and the pattern has no other bits than those of the bytes. -/
theorem integerPattern?_eq_some_iff (hpos : 1 ≤ width) (hle : width ≤ 8) (radix : Radix)
    (signed : Bool) (text : List Char) :
    (∀ p, (integerPattern? radix width signed text).map UInt64.toNat = some p ↔
      Denotes width signed radix text p) ∧
    ∀ p, Denotes width signed radix text p → p < 2 ^ (8 * width) :=
  ⟨fun _ => map_integerPattern?_eq_some_iff hpos hle, fun _ h => h.lt⟩

/-- The least number of three bytes behind many zeros, the number behind the largest one, and the
pattern of the least one with a mark, a sign and underscores. -/
theorem denotes_three_bytes :
    let least := '-' :: (List.replicate 40 '0' ++ "8388608".toList)
    1 ≤ 3 ∧ 3 ≤ 8 ∧ Denotes 3 true .decimal least 8388608 ∧
      (∀ p, ¬ Denotes 3 true .decimal "8388608".toList p) ∧
      Denotes 3 true .hex "0X_+8_00000".toList 8388608 ∧ 8388608 < 2 ^ (8 * 3) := by
  intro least
  have hpos : 1 ≤ 3 := by decide
  have hle : 3 ≤ 8 := by decide
  obtain ⟨hleast, hlt⟩ := integerPattern?_eq_some_iff hpos hle .decimal true least
  have hbeyond := (integerPattern?_eq_some_iff hpos hle .decimal true "8388608".toList).1
  have hhex := (integerPattern?_eq_some_iff hpos hle .hex true "0X_+8_00000".toList).1
  have hdenotes : Denotes 3 true .decimal least 8388608 := (hleast _).mp (by decide +kernel)
  refine ⟨hpos, hle, hdenotes, fun p hp => ?_, (hhex _).mp (by decide +kernel), hlt _ hdenotes⟩
  have hnone : integerPattern? .decimal 3 true "8388608".toList = none := by decide +kernel
  rw [← hbeyond, hnone] at hp
  cases hp

/-! ## Octets -/

/-- A byte by its hexadecimal digits, behind a mark or without one. -/
inductive Octet : List Char → UInt8 → Prop where
  | plain {s b} : Natural 16 s b.toNat → Octet s b
  | marked {mark s b} : Mark 16 mark → Natural 16 s b.toNat → Octet (mark ++ s) b

theorem naturalBelow?_octet_iff {b : UInt8} :
    (naturalBelow? 16 256 s).map UInt8.ofNat = some b ↔ Natural 16 s b.toNat := by
  simp only [naturalBelow?, Option.map_eq_some_iff, Option.filter_eq_some_iff, decide_eq_true_eq,
    natural?_eq_some_iff (show 16 ≤ 16 by decide)]
  constructor
  · rintro ⟨n, ⟨hn, hlt⟩, rfl⟩
    rwa [UInt8.toNat_ofNat', Nat.mod_eq_of_lt hlt]
  · intro h
    exact ⟨b.toNat, ⟨h, b.toNat_lt⟩, UInt8.ofNat_toNat⟩

theorem no_hexMark_of_natural {n : Nat} (h : Natural 16 s n) : afterHexMark? s = none := by
  have hread := (natural?_eq_some_iff (by decide)).mpr h
  rw [Option.eq_none_iff_forall_ne_some]
  intro t ht
  obtain ⟨mark, hm, rfl⟩ := afterHexMark?_eq_some_iff.mp ht
  rw [← filter_underscore_of_natural? hread] at h
  exact not_natural_of_mark hm h

theorem octet?_eq_some_iff {b : UInt8} : octet? s = some b ↔ Octet s b := by
  rw [octet?, naturalBelow?_octet_iff]
  constructor
  · intro h
    cases hx : afterHexMark? s with
    | none =>
      rw [hx] at h
      exact .plain h
    | some t =>
      obtain ⟨mark, hm, rfl⟩ := afterHexMark?_eq_some_iff.mp hx
      rw [hx] at h
      exact .marked hm h
  · intro h
    cases h with
    | plain h => rwa [no_hexMark_of_natural h]
    | marked hm h => rwa [afterHexMark?_eq_some_iff.mpr ⟨_, hm, rfl⟩]

theorem mapM_eq_ok_iff {α β ε : Type} {f : α → Except ε β} {xs : List α} {ys : List β} :
    xs.mapM f = .ok ys ↔ List.Forall₂ (fun x y => f x = .ok y) xs ys := by
  induction xs generalizing ys with
  | nil =>
    constructor
    · rintro ⟨⟩
      exact .nil
    · rintro ⟨⟩
      rfl
  | cons x xs ih =>
    rw [List.mapM_cons]
    constructor
    · intro h
      cases hx : f x with
      | error cause =>
        rw [hx] at h
        cases h
      | ok y =>
        rw [hx] at h
        cases hxs : xs.mapM f with
        | error cause =>
          rw [hxs] at h
          cases h
        | ok ys' =>
          rw [hxs] at h
          cases h
          exact .cons hx (ih.mp hxs)
    · rintro (_ | ⟨hx, hxs⟩)
      rw [hx, ih.mpr hxs]
      rfl

/-- The bytes of a literal are those of its words. -/
theorem octets_eq_ok_iff {bytes : List UInt8} :
    octets s = .ok bytes ↔ List.Forall₂ Octet (words s) bytes := by
  rw [octets, mapM_eq_ok_iff]
  constructor <;> refine List.Forall₂.imp fun token b h => ?_
  · rw [← octet?_eq_some_iff]
    cases htoken : octet? token with
    | none =>
      rw [htoken] at h
      cases h
    | some c =>
      rw [htoken] at h
      exact congrArg some (Except.ok.inj h)
  · rw [octet?_eq_some_iff.mpr h]

end Literal

end Datagram
