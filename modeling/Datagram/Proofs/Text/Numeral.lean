import Datagram.Proofs.Text.Blank
import Datagram.Text.Numeral
import Mathlib.Tactic.IntervalCases
import Mathlib.Tactic.Ring

/-! # Numerals read back

Digits that are written for a number denote that number, in either case of the letters and with any
zeros in front. No numeral has a blank or an underscore in it, or a mark in front of it. -/

namespace Datagram.Text

theorem digitValue?_bounds {c : Char} {d : Nat} (h : digitValue? c = some d) :
    (48 ≤ c.toNat ∧ c.toNat ≤ 57 ∧ d + 48 = c.toNat) ∨
    (97 ≤ c.toNat ∧ c.toNat ≤ 122 ∧ d + 87 = c.toNat) ∨
    (65 ≤ c.toNat ∧ c.toNat ≤ 90 ∧ d + 55 = c.toNat) := by
  have hle : ∀ a b : Char, a ≤ b ↔ a.toNat ≤ b.toNat := fun a b =>
    Char.le_def.trans UInt32.le_iff_toNat_le
  have h0 : '0'.toNat = 48 := rfl
  have h9 : '9'.toNat = 57 := rfl
  have ha : 'a'.toNat = 97 := rfl
  have hz : 'z'.toNat = 122 := rfl
  have hA : 'A'.toNat = 65 := rfl
  have hZ : 'Z'.toNat = 90 := rfl
  unfold digitValue? at h
  simp only [hle, h0, h9, ha, hz, hA, hZ] at h
  split at h
  · have := Option.some.inj h
    omega
  · split at h
    · have := Option.some.inj h
      omega
    · split at h
      · have := Option.some.inj h
        omega
      · cases h

theorem digitValue?_digitChar {d : Nat} (h : d < 16) : digitValue? d.digitChar = some d := by
  interval_cases d <;> rfl

theorem digitValue?_toUpper_digitChar {d : Nat} (h : d < 16) :
    digitValue? d.digitChar.toUpper = some d := by
  interval_cases d <;> rfl

theorem toUpper_eq_self_or (c : Char) :
    c.toUpper = c ∨ ∃ n, 97 ≤ n ∧ n ≤ 122 ∧ c = Char.ofNat n := by
  by_cases h : 'a'.val ≤ c.val ∧ c.val ≤ 'z'.val
  · obtain ⟨hlow, hhigh⟩ : 97 ≤ c.toNat ∧ c.toNat ≤ 122 := h
    exact Or.inr ⟨c.toNat, hlow, hhigh, (Char.ofNat_toNat c).symm⟩
  · exact Or.inl (dif_neg h)

theorem toUpper_toUpper (c : Char) : c.toUpper.toUpper = c.toUpper := by
  rcases toUpper_eq_self_or c with h | ⟨n, hlow, hhigh, rfl⟩
  · rw [h, h]
  · interval_cases n <;> rfl

theorem digitValue?_toUpper (c : Char) : digitValue? c.toUpper = digitValue? c := by
  rcases toUpper_eq_self_or c with h | ⟨n, hlow, hhigh, rfl⟩
  · rw [h]
  · interval_cases n <;> rfl

theorem digit?_eq_some {base d : Nat} {c : Char} :
    digit? base c = some d ↔ digitValue? c = some d ∧ d < base := by
  simp [digit?, Option.filter_eq_some_iff]

/-- A digit is one of the letters and decimal digits of ASCII. -/
theorem graphic_of_digit? {base d : Nat} {c : Char} (h : digit? base c = some d) :
    isBlank c = false ∧ c ≠ '_' ∧ c ≠ '+' ∧ c ≠ '-' := by
  have hb := digitValue?_bounds (digit?_eq_some.mp h).1
  refine ⟨isBlank_of_graphic (by omega) (by omega), ?_, ?_, ?_⟩
  all_goals
    rintro rfl
    simp only [Char.reduceToNat] at hb
    omega

/-- Digits read behind a number that is known already. -/
def readDigits (base n : Nat) (s : List Char) : Option Nat :=
  s.foldlM (fun n c => (digit? base c).map (n * base + ·)) n

theorem readDigits_append (base n : Nat) (s t : List Char) :
    readDigits base n (s ++ t) = (readDigits base n s).bind fun m => readDigits base m t :=
  List.foldlM_append

theorem readDigits_cons (base n : Nat) (c : Char) (s : List Char) :
    readDigits base n (c :: s) =
      (digit? base c).bind fun d => readDigits base (n * base + d) s := by
  simp only [readDigits, List.foldlM_cons]
  cases digit? base c <;> rfl

theorem ofDigits?_eq_some {base n : Nat} {s : List Char} :
    ofDigits? base s = some n ↔ s ≠ [] ∧ readDigits base 0 s = some n := by
  unfold ofDigits?
  cases s <;> simp [readDigits]

theorem digit?_of_mem_readDigits {base m n : Nat} {s : List Char}
    (h : readDigits base m s = some n) : ∀ c ∈ s, ∃ d, digit? base c = some d := by
  induction s generalizing m with
  | nil => intro c hc; cases hc
  | cons c s ih =>
    rw [readDigits_cons] at h
    obtain ⟨d, hd, h⟩ := Option.bind_eq_some_iff.mp h
    intro e he
    rcases List.mem_cons.mp he with rfl | he
    · exact ⟨d, hd⟩
    · exact ih h e he

theorem digit?_of_mem_ofDigits? {base n : Nat} {s : List Char} (h : ofDigits? base s = some n) :
    ∀ c ∈ s, ∃ d, digit? base c = some d :=
  digit?_of_mem_readDigits (ofDigits?_eq_some.mp h).2

theorem ofDigits?_map_toUpper (base : Nat) (s : List Char) :
    ofDigits? base (s.map Char.toUpper) = ofDigits? base s := by
  have h : readDigits base 0 (s.map Char.toUpper) = readDigits base 0 s := by
    simp only [readDigits, List.foldlM_map, digit?, digitValue?_toUpper]
  unfold ofDigits?
  rw [List.isEmpty_map]
  exact congrArg _ h

theorem solid_of_ofDigits? {base n : Nat} {s : List Char} (h : ofDigits? base s = some n) :
    Solid s := by
  intro c hc
  obtain ⟨d, hd⟩ := digit?_of_mem_ofDigits? h c hc
  exact (graphic_of_digit? hd).1

theorem filter_underscore_of_ofDigits? {base n : Nat} {s : List Char}
    (h : ofDigits? base s = some n) : s.filter (· ≠ '_') = s := by
  rw [List.filter_eq_self]
  intro c hc
  obtain ⟨d, hd⟩ := digit?_of_mem_ofDigits? h c hc
  simpa using (graphic_of_digit? hd).2.1

/-! ## What is written for a number -/

/-- Letters of either case serve as digits. -/
def ReadsDigits (f : Char → Char) : Prop := ∀ d, d < 16 → digitValue? (f d.digitChar) = some d

theorem readsDigits_id : ReadsDigits id := fun _ h => digitValue?_digitChar h

theorem readsDigits_toUpper : ReadsDigits Char.toUpper := fun _ h => digitValue?_toUpper_digitChar h

theorem readDigits_toDigits {f : Char → Char} (hf : ReadsDigits f) {base : Nat} (hb : 1 < base)
    (hb' : base ≤ 16) (n : Nat) : readDigits base 0 ((Nat.toDigits base n).map f) = some n := by
  have hdigit : ∀ d, d < base → digit? base (f d.digitChar) = some d := fun d hd =>
    digit?_eq_some.mpr ⟨hf d (by omega), hd⟩
  induction n using Nat.base_induction base hb with
  | single m hm =>
    rw [Nat.toDigits_of_lt_base hm, List.map_singleton, readDigits_cons, hdigit m hm]
    simp [readDigits]
  | digit m k hk hm ih =>
    rw [← Nat.toDigits_append_toDigits hb hm hk, List.map_append, readDigits_append, ih,
      Nat.toDigits_of_lt_base hk, Option.bind_some, List.map_singleton, readDigits_cons,
      hdigit k hk]
    simp [readDigits, Nat.mul_comm]

theorem readDigits_replicate_zero {base : Nat} (hb : 1 < base) (k : Nat) (s : List Char) :
    readDigits base 0 (List.replicate k '0' ++ s) = readDigits base 0 s := by
  have h0 : digit? base '0' = some 0 := digit?_eq_some.mpr ⟨rfl, by omega⟩
  induction k with
  | zero => rfl
  | succ k ih => simpa [List.replicate_succ, readDigits_cons, h0] using ih

theorem ofDigits?_zeroPadded {f : Char → Char} (hf : ReadsDigits f) {base : Nat} (hb : 1 < base)
    (hb' : base ≤ 16) (width n : Nat) :
    ofDigits? base (zeroPadded width ((Nat.toDigits base n).map f)) = some n := by
  rw [ofDigits?_eq_some]
  constructor
  · simp [zeroPadded, List.leftpad]
  · unfold zeroPadded List.leftpad
    rw [readDigits_replicate_zero hb, readDigits_toDigits hf hb hb']

theorem ofDigits?_decimal (n : Nat) : ofDigits? 10 (decimal n) = some n := by
  have h : readDigits 10 0 ((Nat.toDigits 10 n).map id) = some n :=
    readDigits_toDigits readsDigits_id (by decide) (by decide) n
  rw [List.map_id] at h
  exact ofDigits?_eq_some.mpr ⟨Nat.toDigits_ne_nil, h⟩

theorem ofDigits?_upperHex (width n : Nat) :
    ofDigits? 16 (zeroPadded width (upperHex n)) = some n :=
  ofDigits?_zeroPadded readsDigits_toUpper (by decide) (by decide) width n

theorem ofDigits?_binary (width n : Nat) :
    ofDigits? 2 (zeroPadded width (binary n)) = some n := by
  have h : ofDigits? 2 (zeroPadded width ((Nat.toDigits 2 n).map id)) = some n :=
    ofDigits?_zeroPadded readsDigits_id (by decide) (by decide) width n
  rwa [List.map_id] at h

theorem ofDigits?_paddedDecimal (width n : Nat) :
    ofDigits? 10 (zeroPadded width (decimal n)) = some n := by
  have h : ofDigits? 10 (zeroPadded width ((Nat.toDigits 10 n).map id)) = some n :=
    ofDigits?_zeroPadded readsDigits_id (by decide) (by decide) width n
  rwa [List.map_id] at h

theorem solid_decimal (n : Nat) : Solid (decimal n) := solid_of_ofDigits? (ofDigits?_decimal n)

theorem isDigit_of_digit? {c : Char} {d : Nat} (h : digit? 10 c = some d) : c.isDigit = true := by
  obtain ⟨hd, hlt⟩ := digit?_eq_some.mp h
  have hbounds := digitValue?_bounds hd
  have hrange : c.isDigit = ('0'.val ≤ c.val && c.val ≤ '9'.val) := rfl
  simp only [hrange, Bool.and_eq_true, decide_eq_true_eq, UInt32.le_iff_toNat_le, Char.toNat_val,
    Char.reduceToNat]
  omega

theorem lt_underscore_of_digit? {c : Char} {d : Nat} (h : digit? 10 c = some d) : c < '_' := by
  obtain ⟨hd, hlt⟩ := digit?_eq_some.mp h
  have hbounds := digitValue?_bounds hd
  have hcode : c < '_' ↔ c.toNat < 95 := Iff.rfl
  rw [hcode]
  omega

theorem isDigit_of_mem_decimal {n : Nat} {c : Char} (h : c ∈ decimal n) : c.isDigit = true :=
  Nat.isDigit_of_mem_toDigits (by decide) (by decide) h

/-! ## Order -/

theorem readDigits_bounds {base m n : Nat} {s : List Char} (h : readDigits base m s = some n) :
    m * base ^ s.length ≤ n ∧ n < (m + 1) * base ^ s.length := by
  induction s generalizing m with
  | nil =>
    obtain rfl : m = n := Option.some.inj h
    simp
  | cons c s ih =>
    rw [readDigits_cons, Option.bind_eq_some_iff] at h
    obtain ⟨d, hd, h⟩ := h
    have hlt := (digit?_eq_some.mp hd).2
    obtain ⟨hle, hgt⟩ := ih h
    have hpow : base ^ (c :: s).length = base * base ^ s.length := by
      rw [List.length_cons, pow_succ, Nat.mul_comm]
    constructor
    · calc m * base ^ (c :: s).length = (m * base) * base ^ s.length := by rw [hpow, Nat.mul_assoc]
        _ ≤ (m * base + d) * base ^ s.length := Nat.mul_le_mul_right _ (Nat.le_add_right _ _)
        _ ≤ n := hle
    · calc n < (m * base + d + 1) * base ^ s.length := hgt
        _ ≤ ((m + 1) * base) * base ^ s.length := by
          apply Nat.mul_le_mul_right
          rw [Nat.add_mul, Nat.one_mul]
          omega
        _ = (m + 1) * base ^ (c :: s).length := by rw [hpow, Nat.mul_assoc]

theorem digit?_lt {c c' : Char} {d d' : Nat} (hc : digit? 10 c = some d) (hc' : digit? 10 c' = some d')
    (h : c < c') : d < d' := by
  obtain ⟨hd, hlt⟩ := digit?_eq_some.mp hc
  obtain ⟨hd', hlt'⟩ := digit?_eq_some.mp hc'
  have hb := digitValue?_bounds hd
  have hb' := digitValue?_bounds hd'
  have h : c.toNat < c'.toNat := h
  omega

/-- Of two decimal numerals of one length the first in the order of texts is the smaller. -/
theorem readDigits_lt {m n p : Nat} {s t : List Char} (hlen : s.length = t.length)
    (hs : readDigits 10 m s = some n) (ht : readDigits 10 m t = some p) (h : s < t) : n < p := by
  induction s generalizing m t with
  | nil =>
    rw [List.length_nil, eq_comm, List.length_eq_zero_iff] at hlen
    subst hlen
    exact absurd h (List.lt_irrefl _)
  | cons c s ih =>
    obtain ⟨c', t, rfl⟩ := List.exists_cons_of_length_pos (l := t) (by rw [← hlen]; simp)
    have hrest : s.length = t.length := by simpa using hlen
    rw [readDigits_cons, Option.bind_eq_some_iff] at hs ht
    obtain ⟨d, hd, hs⟩ := hs
    obtain ⟨d', hd', ht⟩ := ht
    rcases List.cons_lt_cons_iff.mp h with hlt | ⟨rfl, hlt⟩
    · have hdigit := digit?_lt hd hd' hlt
      calc n < (m * 10 + d + 1) * 10 ^ s.length := (readDigits_bounds hs).2
        _ ≤ (m * 10 + d') * 10 ^ t.length := by
          rw [hrest]
          exact Nat.mul_le_mul_right _ (by omega)
        _ ≤ p := (readDigits_bounds ht).1
    · obtain rfl : d = d' := Option.some.inj (hd.symm.trans hd')
      exact ih hrest hs ht hlt

/-- Decimal numerals of one length are in the order of their numbers. -/
theorem lt_iff_of_readDigits {m n p : Nat} {s t : List Char} (hlen : s.length = t.length)
    (hs : readDigits 10 m s = some n) (ht : readDigits 10 m t = some p) : s < t ↔ n < p := by
  constructor
  · exact readDigits_lt hlen hs ht
  · intro hlt
    rcases Std.lt_trichotomy s t with hst | rfl | hts
    · exact hst
    · obtain rfl : n = p := Option.some.inj (hs.symm.trans ht)
      exact absurd hlt (Nat.lt_irrefl n)
    · exact absurd (readDigits_lt hlen.symm ht hs hts) (Nat.lt_asymm hlt)

/-- The first digits of a numeral denote a quotient of its number. -/
theorem readDigits_front {base m n : Nat} {s t : List Char}
    (h : readDigits base m (s ++ t) = some n) :
    readDigits base m s = some (n / base ^ t.length) := by
  rw [readDigits_append, Option.bind_eq_some_iff] at h
  obtain ⟨p, hp, h⟩ := h
  obtain ⟨hle, hlt⟩ := readDigits_bounds h
  rw [hp, Nat.div_eq_of_lt_le hle hlt]

/-! ## Signs and marks -/

theorem natural?_of_ofDigits? {base n : Nat} {s : List Char} (h : ofDigits? base s = some n) :
    natural? base s = some n := by
  cases s with
  | nil => exact h
  | cons c s =>
    obtain ⟨d, hd⟩ := digit?_of_mem_ofDigits? h c List.mem_cons_self
    have hc := (graphic_of_digit? hd).2.2.1
    unfold natural?
    split
    · rename_i heq
      exact absurd (List.cons.inj heq).1 hc
    · exact h

theorem naturalBelow?_of_ofDigits? {base bound n : Nat} {s : List Char}
    (h : ofDigits? base s = some n) (hn : n < bound) : naturalBelow? base bound s = some n := by
  simp [naturalBelow?, natural?_of_ofDigits? h, hn]

theorem integer?_of_ofDigits? {n : Nat} {s : List Char} (h : ofDigits? 10 s = some n) :
    integer? s = some (n : Int) := by
  have hn := natural?_of_ofDigits? h
  cases s with
  | nil => simp [integer?, hn]
  | cons c s =>
    obtain ⟨d, hd⟩ := digit?_of_mem_ofDigits? h c List.mem_cons_self
    have hc := (graphic_of_digit? hd).2.2.2
    unfold integer?
    split
    · rename_i heq
      exact absurd (List.cons.inj heq).1 hc
    · simp [hn]

theorem decimalInt_natCast (n : Nat) : decimalInt (n : Int) = decimal n := by
  rw [decimalInt, if_neg (Int.not_lt.mpr (Int.natCast_nonneg n)), Int.natAbs_natCast]

theorem integer?_decimalInt (n : Int) : integer? (decimalInt n) = some n := by
  unfold decimalInt
  split
  · simp only [integer?, ofDigits?_decimal, Option.map_some, Option.some.injEq]
    simp only [Int.ofNat_eq_natCast]
    omega
  · rw [integer?_of_ofDigits? (ofDigits?_decimal _), Option.some.injEq]
    omega

theorem solid_decimalInt (n : Int) : Solid (decimalInt n) := by
  have hd := solid_decimal n.natAbs
  unfold decimalInt
  split
  · intro c hc
    rcases List.mem_cons.mp hc with rfl | hc
    · decide
    · exact hd c hc
  · exact hd

/-- Where a numeral is read, after its sign there are only digits. -/
theorem digits_of_natural? {base n : Nat} {s : List Char} (h : natural? base s = some n) :
    ofDigits? base s = some n ∨ ∃ t, s = '+' :: t ∧ ofDigits? base t = some n := by
  unfold natural? at h
  split at h
  · exact Or.inr ⟨_, rfl, h⟩
  · exact Or.inl h

theorem filter_underscore_of_natural? {base n : Nat} {s : List Char} (h : natural? base s = some n) :
    s.filter (· ≠ '_') = s := by
  rcases digits_of_natural? h with hd | ⟨t, rfl, hd⟩
  · exact filter_underscore_of_ofDigits? hd
  · rw [List.filter_cons_of_pos (by decide), filter_underscore_of_ofDigits? hd]

theorem integer?_of_natural? {n : Nat} {s : List Char} (h : natural? 10 s = some n) :
    integer? s = some (n : Int) := by
  rcases digits_of_natural? h with hd | ⟨t, rfl, hd⟩
  · exact integer?_of_ofDigits? hd
  · rw [integer?, h]
    · rfl
    · intro t' heq
      cases heq

theorem digits_of_integer? {n : Int} {s : List Char} (h : integer? s = some n) :
    ∃ t m, ofDigits? 10 t = some m ∧ (s = t ∨ s = '+' :: t ∨ s = '-' :: t) := by
  unfold integer? at h
  split at h
  · obtain ⟨m, hm, _⟩ := Option.map_eq_some_iff.mp h
    exact ⟨_, m, hm, Or.inr (Or.inr rfl)⟩
  · obtain ⟨m, hm, _⟩ := Option.map_eq_some_iff.mp h
    rcases digits_of_natural? hm with hd | ⟨t, rfl, hd⟩
    · exact ⟨_, m, hd, Or.inl rfl⟩
    · exact ⟨t, m, hd, Or.inr (Or.inl rfl)⟩

theorem afterHexMark?_eq_none {s : List Char} (h : 'x' ∉ s) (h' : 'X' ∉ s) :
    afterHexMark? s = none := by
  unfold afterHexMark?
  split
  · exact absurd (by simp) h
  · exact absurd (by simp) h'
  · rfl

theorem afterBinaryMark?_eq_none {s : List Char} (h : 'b' ∉ s) (h' : 'B' ∉ s) :
    afterBinaryMark? s = none := by
  unfold afterBinaryMark?
  split
  · exact absurd (by simp) h
  · exact absurd (by simp) h'
  · rfl

theorem not_mem_of_ofDigits? {base n : Nat} {s : List Char} {c : Char}
    (h : ofDigits? base s = some n) (hc : digit? base c = none) : c ∉ s := by
  intro hmem
  obtain ⟨d, hd⟩ := digit?_of_mem_ofDigits? h c hmem
  rw [hc] at hd
  cases hd

theorem no_hexMark_of_ofDigits? {n : Nat} {s : List Char} (h : ofDigits? 16 s = some n) :
    afterHexMark? s = none :=
  afterHexMark?_eq_none (not_mem_of_ofDigits? h rfl) (not_mem_of_ofDigits? h rfl)

/-- The letter of a mark is no decimal digit. -/
theorem no_mark_of_integer? {n : Int} {s : List Char} (h : integer? s = some n) :
    afterHexMark? s = none ∧ afterBinaryMark? s = none := by
  obtain ⟨t, m, ht, hs⟩ := digits_of_integer? h
  have hletter : ∀ c, c ≠ '+' → c ≠ '-' → digit? 10 c = none → c ∉ s := by
    intro c hplus hminus hc hcs
    have hct := not_mem_of_ofDigits? ht hc
    rcases hs with rfl | rfl | rfl
    · exact hct hcs
    · exact hct (List.mem_of_ne_of_mem hplus hcs)
    · exact hct (List.mem_of_ne_of_mem hminus hcs)
  exact ⟨afterHexMark?_eq_none (hletter 'x' (by decide) (by decide) rfl)
      (hletter 'X' (by decide) (by decide) rfl),
    afterBinaryMark?_eq_none (hletter 'b' (by decide) (by decide) rfl)
      (hletter 'B' (by decide) (by decide) rfl)⟩

end Datagram.Text
