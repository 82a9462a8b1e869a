import Datagram.Octets.Input
import Datagram.Proofs.Text.Grammar
import Mathlib.Data.List.Forall2

/-! # Inputs cut into pairs

What is left of the words of an input without their marks is cut into pairs of characters. A pair of
two hexadecimal digits is the byte with these digits. A plus sign in place of the first digit is read
over, so that an input with an even number of characters may be read though not all of them are
digits. -/

namespace Datagram

open Datagram.Text

namespace Octets

/-- What is left of a text without the marks of one case in front of it. -/
inductive Stripped (x : Char) : List Char → List Char → Prop where
  | bare {s} : ¬ ['0', x] <+: s → Stripped x s s
  | mark {s rest} : Stripped x s rest → Stripped x ('0' :: x :: s) rest

/-- What is left of a word without the marks in front of it, those in lower case before those in upper
case. -/
def Bare (word rest : List Char) : Prop :=
  ∃ middle, Stripped 'x' word middle ∧ Stripped 'X' middle rest

def IsHex (c : Char) : Prop := ∃ d, IsDigit 16 c d

/-- The bytes that characters are read as, two by two. -/
inductive Pairs : List UInt8 → List Char → Prop where
  | nil : Pairs [] []
  | digits {a b x y bytes s} : IsDigit 16 a x → IsDigit 16 b y → Pairs bytes s →
      Pairs (UInt8.ofNat (16 * x + y) :: bytes) (a :: b :: s)
  | plus {b y bytes s} : IsDigit 16 b y → Pairs bytes s →
      Pairs (UInt8.ofNat y :: bytes) ('+' :: b :: s)

/-! ## Marks -/

theorem stripped_dropLowerMarks (s : List Char) : Stripped 'x' s (dropLowerMarks s) := by
  fun_induction dropLowerMarks s with
  | case1 s ih => exact .mark ih
  | case2 s h =>
    apply Stripped.bare
    rintro ⟨t, rfl⟩
    exact h t rfl

theorem stripped_dropUpperMarks (s : List Char) : Stripped 'X' s (dropUpperMarks s) := by
  fun_induction dropUpperMarks s with
  | case1 s ih => exact .mark ih
  | case2 s h =>
    apply Stripped.bare
    rintro ⟨t, rfl⟩
    exact h t rfl

theorem bare_words (s : List Char) : ∃ rest, List.Forall₂ Bare (words s) rest ∧
    rest.flatten = inputDigits s := by
  refine ⟨(words s).map fun w => dropUpperMarks (dropLowerMarks w), ?_, rfl⟩
  rw [List.forall₂_map_right_iff, List.forall₂_same]
  intro w _
  exact ⟨dropLowerMarks w, stripped_dropLowerMarks w, stripped_dropUpperMarks _⟩

/-! ## Pairs -/

section

variable {a b c : Char} {s : List Char} {bytes : List UInt8}

theorem toNat_lt_of_isHex (h : IsHex c) : c.toNat < 128 := by
  obtain ⟨d, hd⟩ := h
  have := digitValue?_bounds (digit?_eq_some.mp ((digit?_eq_some_iff (by decide)).mpr hd)).1
  omega

theorem not_isHex_plus : ¬ IsHex '+' := by
  rintro ⟨d, hd⟩
  have := (digit?_eq_some_iff (by decide)).mpr hd
  cases this

theorem digits_singleton_iff {n : Nat} : Digits 16 [b] n ↔ IsDigit 16 b n := by
  constructor
  · intro h
    have hread := ofDigits?_of_digits (by decide) h
    rw [ofDigits?_eq_some, readDigits_singleton] at hread
    obtain ⟨d, hd, rfl⟩ := Option.map_eq_some_iff.mp hread.2
    simpa using (digit?_eq_some_iff (by decide)).mp hd
  · exact .one

theorem digits_pair_iff {n : Nat} :
    Digits 16 [a, b] n ↔ ∃ x y, IsDigit 16 a x ∧ IsDigit 16 b y ∧ n = 16 * x + y := by
  constructor
  · intro h
    have hread := ofDigits?_of_digits (by decide) h
    rw [ofDigits?_eq_some, readDigits_cons] at hread
    obtain ⟨x, hx, hrest⟩ := Option.bind_eq_some_iff.mp hread.2
    rw [readDigits_singleton] at hrest
    obtain ⟨y, hy, rfl⟩ := Option.map_eq_some_iff.mp hrest
    rw [digit?_eq_some_iff (by decide)] at hx hy
    refine ⟨x, y, hx, hy, ?_⟩
    omega
  · rintro ⟨x, y, hx, hy, rfl⟩
    have hdigits := Digits.snoc (.one hx) hy
    rwa [Nat.mul_comm x 16] at hdigits

/-- A pair is read if it has two digits, or one behind a plus sign. -/
theorem naturalBelow?_pair_iff {n : Nat} : naturalBelow? 16 256 [a, b] = some n ↔
    (∃ x y, IsDigit 16 a x ∧ IsDigit 16 b y ∧ n = 16 * x + y) ∨ (a = '+' ∧ IsDigit 16 b n) := by
  rw [naturalBelow?, Option.filter_eq_some_iff, natural?_eq_some_iff (by decide)]
  constructor
  · rintro ⟨h, -⟩
    cases h with
    | plain h => exact Or.inl (digits_pair_iff.mp h)
    | plus h => exact Or.inr ⟨rfl, digits_singleton_iff.mp h⟩
  · rintro (⟨x, y, hx, hy, rfl⟩ | ⟨rfl, hb⟩)
    · refine ⟨.plain (digits_pair_iff.mpr ⟨x, y, hx, hy, rfl⟩), ?_⟩
      have := hx.1
      have := hy.1
      simp only [decide_eq_true_eq]
      omega
    · refine ⟨.plus (digits_singleton_iff.mpr hb), ?_⟩
      have := hb.1
      simp only [decide_eq_true_eq]
      omega

theorem pairs_of_ofPairs (h : ofPairs s = .ok bytes) : Pairs bytes s := by
  fun_induction ofPairs s generalizing bytes with
  | case1 =>
    cases h
    exact .nil
  | case2 => cases h
  | case3 a b s n hpair ih =>
    cases hrest : ofPairs s with
    | error fault =>
      rw [hrest] at h
      cases h
    | ok rest =>
      rw [hrest] at h
      cases h
      rcases naturalBelow?_pair_iff.mp hpair with ⟨x, y, hx, hy, rfl⟩ | ⟨rfl, hb⟩
      · exact .digits hx hy (ih hrest)
      · exact .plus hb (ih hrest)
  | case4 => cases h

theorem ofPairs_of_pairs (h : Pairs bytes s) : ofPairs s = .ok bytes := by
  induction h with
  | nil => rfl
  | digits hx hy _ ih =>
    rw [ofPairs, naturalBelow?_pair_iff.mpr (Or.inl ⟨_, _, hx, hy, rfl⟩), ih]
    rfl
  | plus hb _ ih =>
    rw [ofPairs, naturalBelow?_pair_iff.mpr (Or.inr ⟨rfl, hb⟩), ih]
    rfl

theorem Pairs.length_eq (h : Pairs bytes s) : s.length = 2 * bytes.length := by
  induction h with
  | nil => rfl
  | digits _ _ _ ih => simp only [List.length_cons]; omega
  | plus _ _ ih => simp only [List.length_cons]; omega

theorem Pairs.hex_or_plus (h : Pairs bytes s) : ∀ c ∈ s, IsHex c ∨ c = '+' := by
  induction h with
  | nil => simp
  | digits hx hy _ ih =>
    rw [List.forall_mem_cons, List.forall_mem_cons]
    exact ⟨Or.inl ⟨_, hx⟩, Or.inl ⟨_, hy⟩, ih⟩
  | plus hb _ ih =>
    rw [List.forall_mem_cons, List.forall_mem_cons]
    exact ⟨Or.inr rfl, Or.inl ⟨_, hb⟩, ih⟩

/-- An even number of digits is a text of pairs. -/
theorem exists_pairs (heven : s.length % 2 = 0) (h : ∀ c ∈ s, IsHex c) :
    ∃ bytes, Pairs bytes s := by
  induction s using List.twoStepInduction with
  | nil => exact ⟨[], .nil⟩
  | singleton => simp at heven
  | cons_cons a b s ih _ =>
    rw [List.forall_mem_cons, List.forall_mem_cons] at h
    obtain ⟨⟨x, hx⟩, ⟨y, hy⟩, hs⟩ := h
    have hlength : s.length % 2 = 0 := by
      simp only [List.length_cons] at heven
      omega
    obtain ⟨bytes, hbytes⟩ := ih hlength hs
    exact ⟨_, .digits hx hy hbytes⟩

theorem ofInput_eq_ok_iff {input : List Char} :
    ofInput input = .ok bytes ↔ Pairs bytes (inputDigits input) := by
  constructor
  · intro h
    simp only [ofInput] at h
    split at h
    · cases h
    · split at h
      · cases h
      · exact pairs_of_ofPairs h
  · intro h
    have hascii : (inputDigits input).any (128 ≤ ·.toNat) = false := by
      rw [List.any_eq_false]
      intro c hc
      have hlt : c.toNat < 128 := by
        rcases h.hex_or_plus c hc with hhex | rfl
        · exact toNat_lt_of_isHex hhex
        · decide
      simpa using hlt
    have hlength := h.length_eq
    have heven : ¬ (inputDigits input).length % 2 = 1 := by omega
    simp only [ofInput, hascii, Bool.false_eq_true, if_false, if_neg heven]
    exact ofPairs_of_pairs h

end

/-- The bytes of an input are those of the pairs that are left of its words. An input is read without a
plus sign just if there are hexadecimal digits left and nothing else, and an even number of them. -/
theorem ofInput_reads (input : List Char) :
    ∃ rest, List.Forall₂ Bare (words input) rest ∧
      (∀ bytes, ofInput input = .ok bytes ↔ Pairs bytes rest.flatten) ∧
      ((∃ bytes, ofInput input = .ok bytes) ∧ '+' ∉ rest.flatten ↔
        (∀ c ∈ rest.flatten, IsHex c) ∧ rest.flatten.length % 2 = 0) := by
  obtain ⟨rest, hbare, hrest⟩ := bare_words input
  refine ⟨rest, hbare, fun bytes => hrest ▸ ofInput_eq_ok_iff, ?_⟩
  rw [hrest]
  constructor
  · rintro ⟨⟨bytes, hread⟩, hplus⟩
    have hpairs := ofInput_eq_ok_iff.mp hread
    have heven := hpairs.length_eq
    refine ⟨fun c hc => (hpairs.hex_or_plus c hc).resolve_right ?_, by omega⟩
    rintro rfl
    exact hplus hc
  · rintro ⟨hhex, heven⟩
    obtain ⟨bytes, hpairs⟩ := exists_pairs heven hhex
    exact ⟨⟨bytes, ofInput_eq_ok_iff.mpr hpairs⟩, fun hplus => not_isHex_plus (hhex _ hplus)⟩

/-- A plus sign and a digit are a byte. -/
theorem signed_pair_read :
    inputDigits "+f".toList = "+f".toList ∧ ofInput "+f".toList = .ok [15] ∧
      ¬ ∀ c ∈ "+f".toList, IsHex c := by
  refine ⟨by rfl, by rfl, fun h => ?_⟩
  exact not_isHex_plus (h '+' (by decide))

end Octets

end Datagram
