import Datagram.Proofs.Text.Numeral
import Mathlib.Data.List.Induction

/-! # The grammar of numerals

A numeral is one or more digits, and what it denotes is built up digit by digit from the left. The
readers of digits, of natural numbers and of integers accept just the numerals with the signs that
each of them allows, however long these are. A mark in front of it names the base. -/

namespace Datagram.Text

/-- A character is the digit with a value in a base; above nine it is a letter of either case. -/
def IsDigit (base : Nat) (c : Char) (d : Nat) : Prop :=
  d < base ∧ (c = d.digitChar ∨ c = d.digitChar.toUpper)

/-- Digits, and the number that they denote. -/
inductive Digits (base : Nat) : List Char → Nat → Prop where
  | one {c d} : IsDigit base c d → Digits base [c] d
  | snoc {s n c d} : Digits base s n → IsDigit base c d → Digits base (s ++ [c]) (n * base + d)

/-- Digits with a plus sign or without. -/
inductive Natural (base : Nat) : List Char → Nat → Prop where
  | plain {s n} : Digits base s n → Natural base s n
  | plus {s n} : Digits base s n → Natural base ('+' :: s) n

/-- Decimal digits with at most one sign. -/
inductive Integer : List Char → Int → Prop where
  | natural {s n} : Natural 10 s n → Integer s n
  | minus {s n} : Digits 10 s n → Integer ('-' :: s) (-n)

section Base

variable {base : Nat}

theorem digit?_eq_some_iff (hb : base ≤ 16) {c : Char} {d : Nat} :
    digit? base c = some d ↔ IsDigit base c d := by
  rw [digit?_eq_some]
  constructor
  · rintro ⟨hd, hlt⟩
    refine ⟨hlt, ?_⟩
    have hbounds := digitValue?_bounds hd
    have hvalue : d < 16 := Nat.lt_of_lt_of_le hlt hb
    have hchars : c.toNat = d.digitChar.toNat ∨ c.toNat = d.digitChar.toUpper.toNat := by
      interval_cases d <;> simp [Nat.digitChar] <;> omega
    exact hchars.imp Char.toNat_inj.mp Char.toNat_inj.mp
  · rintro ⟨hlt, rfl | rfl⟩
    · exact ⟨digitValue?_digitChar (Nat.lt_of_lt_of_le hlt hb), hlt⟩
    · exact ⟨digitValue?_toUpper_digitChar (Nat.lt_of_lt_of_le hlt hb), hlt⟩

theorem readDigits_singleton (n : Nat) (c : Char) :
    readDigits base n [c] = (digit? base c).map (n * base + ·) := by
  rw [readDigits_cons]
  cases digit? base c <;> rfl

theorem ofDigits?_of_digits (hb : base ≤ 16) {s : List Char} {n : Nat} (h : Digits base s n) :
    ofDigits? base s = some n := by
  induction h with
  | one hc =>
    rw [ofDigits?_eq_some, readDigits_singleton, (digit?_eq_some_iff hb).mpr hc]
    simp
  | snoc _ hc ih =>
    rw [ofDigits?_eq_some] at ih ⊢
    refine ⟨by simp, ?_⟩
    rw [readDigits_append, ih.2, Option.bind_some, readDigits_singleton,
      (digit?_eq_some_iff hb).mpr hc, Option.map_some]

theorem digits_of_ofDigits? (hb : base ≤ 16) {s : List Char} {n : Nat}
    (h : ofDigits? base s = some n) : Digits base s n := by
  -- The last digit is read last, so the induction is on the text from its end.
  induction s using List.reverseRecOn generalizing n with
  | nil => cases h
  | append_singleton s c ih =>
    obtain ⟨_, hread⟩ := ofDigits?_eq_some.mp h
    rw [readDigits_append, Option.bind_eq_some_iff] at hread
    obtain ⟨m, hm, hread⟩ := hread
    rw [readDigits_singleton, Option.map_eq_some_iff] at hread
    obtain ⟨d, hd, rfl⟩ := hread
    have hdigit := (digit?_eq_some_iff hb).mp hd
    by_cases hs : s = []
    · subst hs
      obtain rfl : 0 = m := Option.some.inj hm
      rw [Nat.zero_mul, Nat.zero_add]
      exact .one hdigit
    · exact .snoc (ih (ofDigits?_eq_some.mpr ⟨hs, hm⟩)) hdigit

theorem ofDigits?_eq_some_iff (hb : base ≤ 16) {s : List Char} {n : Nat} :
    ofDigits? base s = some n ↔ Digits base s n :=
  ⟨digits_of_ofDigits? hb, ofDigits?_of_digits hb⟩

theorem natural?_eq_some_iff (hb : base ≤ 16) {s : List Char} {n : Nat} :
    natural? base s = some n ↔ Natural base s n := by
  constructor
  · intro h
    rcases digits_of_natural? h with hd | ⟨t, rfl, hd⟩
    · exact .plain ((ofDigits?_eq_some_iff hb).mp hd)
    · exact .plus ((ofDigits?_eq_some_iff hb).mp hd)
  · intro h
    cases h with
    | plain hd => exact natural?_of_ofDigits? ((ofDigits?_eq_some_iff hb).mpr hd)
    | plus hd => exact (ofDigits?_eq_some_iff hb).mpr hd

theorem Natural.solid (hb : base ≤ 16) {s : List Char} {n : Nat} (h : Natural base s n) :
    Solid s := by
  cases h with
  | plain hd => exact solid_of_ofDigits? (ofDigits?_of_digits hb hd)
  | plus hd =>
    exact List.forall_mem_cons.mpr ⟨rfl, solid_of_ofDigits? (ofDigits?_of_digits hb hd)⟩

theorem Natural.not_mem (hb : base ≤ 16) {s : List Char} {n : Nat} (h : Natural base s n) {c : Char}
    (hc : digit? base c = none) (hplus : c ≠ '+') : c ∉ s := by
  cases h with
  | plain hd => exact not_mem_of_ofDigits? (ofDigits?_of_digits hb hd) hc
  | plus hd =>
    rw [List.mem_cons, not_or]
    exact ⟨hplus, not_mem_of_ofDigits? (ofDigits?_of_digits hb hd) hc⟩

end Base

theorem isDigit_of_digits {ds : List Char} {n : Nat} (h : Digits 10 ds n) :
    ∀ c ∈ ds, c.isDigit = true := by
  intro c hc
  obtain ⟨d, hd⟩ := digit?_of_mem_ofDigits? (ofDigits?_of_digits (by decide) h) c hc
  exact isDigit_of_digit? hd

theorem exists_isDigit {c : Char} (h : c.isDigit = true) : ∃ d, IsDigit 10 c d := by
  have hbounds : 48 ≤ c.toNat ∧ c.toNat ≤ 57 := by
    simpa [Char.isDigit, UInt32.le_iff_toNat_le] using h
  have hvalue : digitValue? c = some (c.toNat - 48) := by
    have hrange : '0' ≤ c ∧ c ≤ '9' := by
      simpa [Char.le_def, UInt32.le_iff_toNat_le] using hbounds
    rw [digitValue?, if_pos hrange]
  refine ⟨c.toNat - 48, (digit?_eq_some_iff (by decide)).mp (digit?_eq_some.mpr ⟨hvalue, ?_⟩)⟩
  omega

/-- One or more decimal digits denote a number, however many they are. -/
theorem exists_digits {ds : List Char} (hne : ds ≠ []) (h : ∀ c ∈ ds, c.isDigit = true) :
    ∃ n, Digits 10 ds n := by
  induction ds using List.reverseRecOn with
  | nil => exact absurd rfl hne
  | append_singleton ds c ih =>
    rw [List.forall_mem_append, List.forall_mem_singleton] at h
    obtain ⟨d, hd⟩ := exists_isDigit h.2
    by_cases hds : ds = []
    · subst hds
      exact ⟨d, .one hd⟩
    · obtain ⟨n, hn⟩ := ih hds h.1
      exact ⟨n * 10 + d, .snoc hn hd⟩

theorem integer?_eq_some_iff {s : List Char} {n : Int} : integer? s = some n ↔ Integer s n := by
  constructor
  · intro h
    unfold integer? at h
    split at h
    · obtain ⟨m, hm, rfl⟩ := Option.map_eq_some_iff.mp h
      exact .minus (digits_of_ofDigits? (by decide) hm)
    · obtain ⟨m, hm, rfl⟩ := Option.map_eq_some_iff.mp h
      exact .natural ((natural?_eq_some_iff (by decide)).mp hm)
  · intro h
    cases h with
    | natural hn => exact integer?_of_natural? ((natural?_eq_some_iff (by decide)).mpr hn)
    | minus hd =>
      rw [integer?, ofDigits?_of_digits (by decide) hd]
      rfl

/-! ## Marks -/

/-- What names a base in front of the digits. -/
inductive Mark : Nat → List Char → Prop where
  | hex : Mark 16 ['0', 'x']
  | upperHex : Mark 16 ['0', 'X']
  | binary : Mark 2 ['0', 'b']
  | upperBinary : Mark 2 ['0', 'B']

variable {s t : List Char}

theorem solid_of_mark {base : Nat} (hm : Mark base s) : Solid s := by
  cases hm <;> exact List.forall_mem_cons.mpr ⟨rfl, List.forall_mem_singleton.mpr rfl⟩

theorem afterHexMark?_eq_some_iff :
    afterHexMark? s = some t ↔ ∃ mark, Mark 16 mark ∧ s = mark ++ t := by
  constructor
  · intro h
    unfold afterHexMark? at h
    split at h
    · exact ⟨_, .hex, by rw [Option.some.inj h]; rfl⟩
    · exact ⟨_, .upperHex, by rw [Option.some.inj h]; rfl⟩
    · cases h
  · rintro ⟨mark, hmark, rfl⟩
    cases hmark <;> rfl

theorem afterBinaryMark?_eq_some_iff :
    afterBinaryMark? s = some t ↔ ∃ mark, Mark 2 mark ∧ s = mark ++ t := by
  constructor
  · intro h
    unfold afterBinaryMark? at h
    split at h
    · exact ⟨_, .binary, by rw [Option.some.inj h]; rfl⟩
    · exact ⟨_, .upperBinary, by rw [Option.some.inj h]; rfl⟩
    · cases h
  · rintro ⟨mark, hmark, rfl⟩
    cases hmark <;> rfl

theorem no_binaryMark_of_hexMark (h : afterHexMark? s = some t) : afterBinaryMark? s = none := by
  obtain ⟨mark, hmark, rfl⟩ := afterHexMark?_eq_some_iff.mp h
  cases hmark <;> rfl

/-- The letter of a mark is no digit of its base. -/
theorem not_natural_of_mark {base n : Nat} {mark : List Char} (hm : Mark base mark) :
    ¬ Natural base ((mark ++ s).filter (· ≠ '_')) n := by
  intro h
  have hb : base ≤ 16 := by cases hm <;> decide
  obtain ⟨c, hc, hdigit, hplus, hunderscore⟩ :
      ∃ c ∈ mark, digit? base c = none ∧ c ≠ '+' ∧ c ≠ '_' := by
    cases hm with
    | hex => exact ⟨'x', by decide⟩
    | upperHex => exact ⟨'X', by decide⟩
    | binary => exact ⟨'b', by decide⟩
    | upperBinary => exact ⟨'B', by decide⟩
  have hmem : c ∈ (mark ++ s).filter (· ≠ '_') :=
    List.mem_filter.mpr ⟨List.mem_append_left s hc, decide_eq_true hunderscore⟩
  exact h.not_mem hb hdigit hplus hmem

end Datagram.Text
