import Datagram.Json.Print
import Datagram.Json.Token
import Datagram.Proofs.Text.Numeral

/-! # Tokens read back

A string in quotes is one token whatever characters it has, and so is a numeral where no character
follows that could belong to it. Blanks between tokens are no tokens. -/

namespace Datagram.Json

open Datagram.Text (decimal digit? lowerHex ofDigits? ofDigits?_decimal zeroPadded)

/-! ## Strings -/

/-- A control character is written with four digits, which denote it. -/
theorem unit?_control {n : Nat} (h : n < 0x20) :
    ∃ a b c d, zeroPadded 4 (lowerHex n) = [a, b, c, d] ∧ unit? a b c d = some n := by
  interval_cases n <;> exact ⟨_, _, _, _, rfl, rfl⟩

theorem scanString_plain {c : Char} (hq : c ≠ '"') (hb : c ≠ '\\') (hc : ¬ c.toNat < 0x20)
    (before : List Nat) (s : List Char) :
    scanString before (c :: s) = scanString (c.toNat :: before) s := by
  rw [scanString.eq_def]
  split
  · rename_i heq
    cases heq
  · rename_i heq
    exact absurd (List.cons.inj heq).1 hq
  · rename_i heq
    exact absurd (List.cons.inj heq).1 hb
  · rename_i heq
    exact absurd (List.cons.inj heq).1 hb
  · rename_i heq
    obtain ⟨rfl, rfl⟩ := List.cons.inj heq
    rw [if_neg (not_or.mpr ⟨hc, hb⟩)]

theorem scanString_escaped (c : Char) (before : List Nat) (s : List Char) :
    scanString before (escaped c ++ s) = scanString (c.toNat :: before) s := by
  unfold escaped
  split
  · rfl
  · rfl
  · rfl
  · rfl
  · rfl
  · rfl
  · rfl
  · rename_i hquote hbackslash _ _ _ _ _
    split
    · rename_i hcontrol
      obtain ⟨a, b, d, e, hdigits, hunit⟩ := unit?_control hcontrol
      simp only [hdigits, List.cons_append, List.nil_append, scanString, hunit]
    · rename_i hcontrol
      exact scanString_plain hquote hbackslash hcontrol before s

theorem scanString_quoted (before : List Nat) (t s : List Char) :
    scanString before (t.flatMap escaped ++ '"' :: s) =
      some (before.reverse ++ t.map Char.toNat, s) := by
  induction t generalizing before with
  | nil => simp [scanString]
  | cons c t ih =>
    rw [List.flatMap_cons, List.append_assoc, scanString_escaped, ih]
    simp

theorem not_surrogate (c : Char) :
    isHighSurrogate c.toNat = false ∧ isLowSurrogate c.toNat = false := by
  have hvalid : c.toNat < 0xD800 ∨ 0xDFFF < c.toNat ∧ c.toNat < 0x110000 := c.valid
  simp only [isHighSurrogate, isLowSurrogate, Bool.and_eq_false_iff, decide_eq_false_iff_not]
  omega

theorem joinUnits_cons (before : List Char) (c : Char) (units : List Nat) :
    joinUnits before (c.toNat :: units) = joinUnits (c :: before) units := by
  obtain ⟨hhigh, hlow⟩ := not_surrogate c
  cases units with
  | nil => simp [joinUnits, hhigh, hlow, Char.ofNat_toNat]
  | cons v units =>
    simp only [joinUnits, hhigh, hlow, Bool.false_and, Bool.or_false, Bool.false_eq_true, if_false,
      Char.ofNat_toNat]

theorem joinUnits_toNat (before t : List Char) :
    joinUnits before (t.map Char.toNat) = some (before.reverse ++ t) := by
  induction t generalizing before with
  | nil => simp [joinUnits]
  | cons c t ih =>
    rw [List.map_cons, joinUnits_cons, ih]
    simp

theorem token?_quote (s : List Char) :
    token? ('"' :: s) = (scanString [] s).map fun (units, rest) =>
      (.string ((joinUnits [] units).map String.ofList), rest) := rfl

theorem token?_quotedText (s : String) (rest : List Char) :
    token? (quotedText (some s) ++ rest) = some (.string (some s), rest) := by
  have htext : quotedText (some s) ++ rest = '"' :: (s.toList.flatMap escaped ++ '"' :: rest) := by
    show (['"'] ++ s.toList.flatMap escaped ++ ['"']) ++ rest = _
    simp
  rw [htext, token?_quote, scanString_quoted, Option.map_some]
  dsimp only
  rw [List.reverse_nil, List.nil_append, joinUnits_toNat, Option.map_some, List.reverse_nil,
    List.nil_append, String.ofList_toList]

/-! ## Numbers -/

/-- What may follow a value: the comma or the line feed behind it. -/
def EndsValue (rest : List Char) : Prop := ∀ c, rest.head? = some c → c = ',' ∨ c = '\n'

theorem endsValue_comma (s : List Char) : EndsValue (',' :: s) := by
  intro c hc
  exact Or.inl (Option.some.inj hc).symm

theorem endsValue_newline (s : List Char) : EndsValue ('\n' :: s) := by
  intro c hc
  exact Or.inr (Option.some.inj hc).symm

theorem isDigit_of_endsValue {rest : List Char} (h : EndsValue rest) {c : Char}
    (hc : rest.head? = some c) : c.isDigit = false := by
  rcases h c hc with rfl | rfl <;> rfl

theorem scanFraction?_of_endsValue {rest : List Char} (h : EndsValue rest) :
    scanFraction? rest = some ([], rest) := by
  unfold scanFraction?
  split
  · rcases h '.' rfl with hc | hc <;> cases hc
  · rfl

theorem scanExponent?_of_endsValue {rest : List Char} (h : EndsValue rest) :
    scanExponent? rest = some ([], rest) := by
  cases rest with
  | nil => rfl
  | cons c s =>
    have hletter : ¬ (c = 'e' ∨ c = 'E') := by
      rcases h c rfl with rfl | rfl <;> decide
    rw [scanExponent?, if_neg hletter]

/-- Only the numeral of zero begins with a zero. -/
theorem head?_decimal {n : Nat} (h : n ≠ 0) : (decimal n).head? ≠ some '0' := by
  induction n using Nat.base_induction 10 (by decide) with
  | single m hm =>
    rw [decimal, Nat.toDigits_of_lt_base hm]
    interval_cases m <;> first | exact absurd rfl h | decide
  | digit m k hk hm ih =>
    have hne : decimal m ≠ [] := Nat.toDigits_ne_nil
    have happend : decimal (10 * m + k) = decimal m ++ Nat.toDigits 10 k :=
      (Nat.toDigits_append_toDigits (by decide) hm hk).symm
    rw [happend, List.head?_append, Option.or_of_isSome (List.isSome_head?.mpr hne)]
    exact ih (by omega)

theorem scanDigits?_decimal (n : Nat) {rest : List Char} (h : EndsValue rest) :
    scanDigits? (decimal n ++ rest) = some (decimal n, [], rest) := by
  have hdigits : ∀ c ∈ decimal n, c.isDigit = true := fun c hc => Text.isDigit_of_mem_decimal hc
  have hrest : ∀ c, rest.head? = some c → c.isDigit = false := fun c hc =>
    isDigit_of_endsValue h hc
  have hne : (decimal n).isEmpty = false := by
    rw [List.isEmpty_eq_false_iff]
    exact Nat.toDigits_ne_nil
  have hzero : ¬ ((decimal n).head? = some '0' ∧ decimal n ≠ ['0']) := by
    rintro ⟨hhead, hlong⟩
    by_cases hn : n = 0
    · subst hn
      exact hlong rfl
    · exact head?_decimal hn hhead
  unfold scanDigits?
  simp only [takeWhile_exact hdigits hrest, dropWhile_exact hdigits hrest, hne, hzero,
    Bool.false_eq_true, or_self, if_false, scanFraction?_of_endsValue h,
    scanExponent?_of_endsValue h, Option.bind_some, Option.map_some, List.append_nil]

/-- A digit begins no token but a number. -/
theorem token?_digit {c : Char} (h : c.isDigit = true) (s : List Char) :
    token? (c :: s) = (scanDigits? (c :: s)).map fun (digits, more, s) =>
      (match more, ofDigits? 10 digits with
        | [], some n => .nat n
        | _, _ => .number (String.ofList (digits ++ more)), s) := by
  have hne : ∀ d : Char, d.isDigit = false → c ≠ d := by
    rintro d hd rfl
    rw [h] at hd
    cases hd
  unfold token?
  split
  all_goals try
    rename_i heq
    exact absurd (List.cons.inj heq).1 (hne _ rfl)
  unfold scanNumber?
  split
  · rename_i heq
    exact absurd (List.cons.inj heq).1 (hne _ rfl)
  · rfl

theorem token?_decimal (n : Nat) {rest : List Char} (h : EndsValue rest) :
    token? (decimal n ++ rest) = some (.nat n, rest) := by
  obtain ⟨c, s, hcons⟩ := List.exists_cons_of_ne_nil (Nat.toDigits_ne_nil (b := 10) (n := n))
  have hc : c.isDigit = true := Text.isDigit_of_mem_decimal (n := n) (by simp [decimal, hcons])
  have hscan := scanDigits?_decimal n h
  rw [decimal, hcons, List.cons_append] at hscan ⊢
  rw [token?_digit hc, hscan, ← hcons, Option.map_some]
  dsimp only
  rw [← decimal, ofDigits?_decimal]

/-! ## Blanks -/

variable (before : List Token)

theorem tokensAfter_nil : tokensAfter before [] = some before.reverse := by
  rw [tokensAfter]
  rfl

theorem tokensAfter_blank {c : Char} (h : isBlank c = true) (s : List Char) :
    tokensAfter before (c :: s) = tokensAfter before s := by
  have hdrop : (c :: s).dropWhile isBlank = s.dropWhile isBlank := by simp [h]
  rw [tokensAfter.eq_def, tokensAfter.eq_def before s]
  rw [hdrop]

theorem tokensAfter_token {s rest : List Char} {t : Token} (h : token? s = some (t, rest))
    (hs : ∀ c, s.head? = some c → isBlank c = false) :
    tokensAfter before s = tokensAfter (t :: before) rest := by
  cases s with
  | nil => cases h
  | cons c s =>
    have hdrop : (c :: s).dropWhile isBlank = c :: s := by simp [hs c rfl]
    rw [tokensAfter]
    split
    · rename_i heq
      rw [hdrop] at heq
      cases heq
    · rename_i heq
      rw [hdrop] at heq
      obtain ⟨rfl, rfl⟩ := List.cons.inj heq
      split
      · rename_i hnone
        rw [h] at hnone
        cases hnone
      · rename_i hsome
        rw [h] at hsome
        obtain ⟨rfl, rfl⟩ := Prod.mk.inj (Option.some.inj hsome)
        rfl

end Datagram.Json
