import Datagram.Text.Numeral

/-!
JSON values, and the tokens of their texts. The notation lets a string name one half of a surrogate
pair, and there is no such text; a string of that kind has none here. Blanks between tokens are dropped,
and any other character that begins no token makes the text invalid.
-/

namespace Datagram

inductive Json where
  | null
  | bool (b : Bool)
  /-- A number without a sign, a fraction and an exponent. -/
  | nat (n : Nat)
  /-- Any other number, as it is written. -/
  | number (lexeme : String)
  | string (s : Option String)
  | array (items : List Json)
  | object (members : List (Option String × Json))

namespace Json

open Datagram.Text (digit? ofDigits?)

inductive Token where
  | openBrace
  | closeBrace
  | openBracket
  | closeBracket
  | colon
  | comma
  | null
  | bool (b : Bool)
  | nat (n : Nat)
  | number (lexeme : String)
  | string (s : Option String)
  deriving DecidableEq

/-! ### Strings -/

def isHighSurrogate (u : Nat) : Bool := 0xD800 ≤ u && u < 0xDC00

def isLowSurrogate (u : Nat) : Bool := 0xDC00 ≤ u && u < 0xE000

/-- The characters of code units and code points, after those read before in reverse. A high
surrogate needs a low one after it, and the other way round. -/
def joinUnits (before : List Char) : List Nat → Option (List Char)
  | [] => some before.reverse
  | [u] =>
    if isHighSurrogate u || isLowSurrogate u then none else some (Char.ofNat u :: before).reverse
  | u :: v :: units =>
    if isHighSurrogate u && isLowSurrogate v then
      joinUnits (Char.ofNat (0x10000 + (u - 0xD800) * 0x400 + (v - 0xDC00)) :: before) units
    else if isHighSurrogate u || isLowSurrogate u then none
    else joinUnits (Char.ofNat u :: before) (v :: units)

/-- The character that a one-letter escape stands for. -/
def shortEscape? : Char → Option Nat
  | '"' => some 0x22
  | '\\' => some 0x5C
  | '/' => some 0x2F
  | 'b' => some 0x08
  | 'f' => some 0x0C
  | 'n' => some 0x0A
  | 'r' => some 0x0D
  | 't' => some 0x09
  | _ => none

/-- The code unit that four hexadecimal digits denote. -/
def unit? (a b c d : Char) : Option Nat :=
  match digit? 16 a, digit? 16 b, digit? 16 c, digit? 16 d with
  | some a, some b, some c, some d => some (a * 0x1000 + b * 0x100 + c * 0x10 + d)
  | _, _, _, _ => none

/-- The code units up to the closing quote, after those read before in reverse, and the text after
the quote. -/
def scanString (before : List Nat) : List Char → Option (List Nat × List Char)
  | [] => none
  | '"' :: s => some (before.reverse, s)
  | '\\' :: 'u' :: a :: b :: c :: d :: s =>
    match unit? a b c d with
    | some u => scanString (u :: before) s
    | none => none
  | '\\' :: c :: s =>
    match shortEscape? c with
    | some u => scanString (u :: before) s
    | none => none
  | c :: s => if c.toNat < 0x20 ∨ c = '\\' then none else scanString (c.toNat :: before) s

/-! ### Numbers -/

/-- A fraction with its point, if there is a point, and the text after it. -/
def scanFraction? : List Char → Option (List Char × List Char)
  | '.' :: s =>
    let digits := s.takeWhile Char.isDigit
    if digits.isEmpty then none else some ('.' :: digits, s.dropWhile Char.isDigit)
  | s => some ([], s)

def splitExponentSign : List Char → List Char × List Char
  | '-' :: s => (['-'], s)
  | '+' :: s => (['+'], s)
  | s => ([], s)

/-- An exponent with its letter, if there is a letter, and the text after it. -/
def scanExponent? : List Char → Option (List Char × List Char)
  | [] => some ([], [])
  | c :: s =>
    if c = 'e' ∨ c = 'E' then
      let (sign, s) := splitExponentSign s
      let digits := s.takeWhile Char.isDigit
      if digits.isEmpty then none else some (c :: sign ++ digits, s.dropWhile Char.isDigit)
    else some ([], c :: s)

/-- A number without its sign: its digits, the rest of it, and the text after it. Only the number
zero begins with a zero. -/
def scanDigits? (s : List Char) : Option (List Char × List Char × List Char) :=
  let digits := s.takeWhile Char.isDigit
  if digits.isEmpty ∨ (digits.head? = some '0' ∧ digits ≠ ['0']) then none
  else
    (scanFraction? (s.dropWhile Char.isDigit)).bind fun (fraction, s) =>
      (scanExponent? s).map fun (exponent, s) => (digits, fraction ++ exponent, s)

def scanNumber? : List Char → Option (Token × List Char)
  | '-' :: s => (scanDigits? s).map fun (digits, more, s) =>
    (.number (String.ofList ('-' :: digits ++ more)), s)
  | s => (scanDigits? s).map fun (digits, more, s) =>
    (match more, ofDigits? 10 digits with
      | [], some n => .nat n
      | _, _ => .number (String.ofList (digits ++ more)), s)

/-! ### Tokens -/

def isBlank (c : Char) : Bool := c = ' ' || c = '\t' || c = '\n' || c = '\r'

/-- The token at the start of a text, and the text after it. -/
def token? (s : List Char) : Option (Token × List Char) :=
  match s with
  | '\x7b' :: s => some (.openBrace, s)
  | '\x7d' :: s => some (.closeBrace, s)
  | '[' :: s => some (.openBracket, s)
  | ']' :: s => some (.closeBracket, s)
  | ':' :: s => some (.colon, s)
  | ',' :: s => some (.comma, s)
  | '"' :: s => (scanString [] s).map fun (units, s) =>
    (.string ((joinUnits [] units).map String.ofList), s)
  | 'n' :: 'u' :: 'l' :: 'l' :: s => some (.null, s)
  | 't' :: 'r' :: 'u' :: 'e' :: s => some (.bool true, s)
  | 'f' :: 'a' :: 'l' :: 's' :: 'e' :: s => some (.bool false, s)
  | s => scanNumber? s

theorem length_scanString_le {before units : List Nat} {s r : List Char}
    (h : scanString before s = some (units, r)) : r.length ≤ s.length := by
  fun_induction scanString before s with
  | case1 => simp at h
  | case2 => simp_all
  | case3 _ _ _ _ _ _ _ _ ih => have := ih h; simp only [List.length_cons]; omega
  | case4 => simp at h
  | case5 _ _ _ _ _ _ ih => have := ih h; simp only [List.length_cons]; omega
  | case6 => simp at h
  | case7 => simp at h
  | case8 _ _ _ _ _ _ _ ih => have := ih h; simp only [List.length_cons]; omega

theorem length_dropWhile_le (p : Char → Bool) (s : List Char) :
    (s.dropWhile p).length ≤ s.length :=
  (List.dropWhile_suffix p).length_le

theorem length_dropWhile_lt {p : Char → Bool} {s : List Char} (h : s.takeWhile p ≠ []) :
    (s.dropWhile p).length < s.length := by
  have hs := congrArg List.length (List.takeWhile_append_dropWhile (p := p) (l := s))
  have := List.length_pos_iff.2 h
  simp only [List.length_append] at hs
  omega

theorem length_scanFraction?_le {s r t : List Char} (h : scanFraction? s = some (t, r)) :
    r.length ≤ s.length := by
  unfold scanFraction? at h
  split at h
  · dsimp only at h
    split at h
    · simp at h
    · obtain ⟨-, rfl⟩ := Prod.mk.inj (Option.some.inj h)
      exact Nat.le_succ_of_le (length_dropWhile_le _ _)
  · obtain ⟨-, rfl⟩ := Prod.mk.inj (Option.some.inj h)
    exact Nat.le_refl _

theorem length_splitExponentSign_le (s : List Char) :
    (splitExponentSign s).2.length ≤ s.length := by
  fun_cases splitExponentSign s <;> simp

theorem length_scanExponent?_le {s r t : List Char} (h : scanExponent? s = some (t, r)) :
    r.length ≤ s.length := by
  cases s with
  | nil => simp_all [scanExponent?]
  | cons c s =>
    simp only [scanExponent?] at h
    split at h
    · split at h
      · simp at h
      · obtain ⟨-, rfl⟩ := Prod.mk.inj (Option.some.inj h)
        exact Nat.le_succ_of_le
          (Nat.le_trans (length_dropWhile_le _ _) (length_splitExponentSign_le s))
    · obtain ⟨-, rfl⟩ := Prod.mk.inj (Option.some.inj h)
      exact Nat.le_refl _

theorem length_scanDigits?_lt {s d m r : List Char} (h : scanDigits? s = some (d, m, r)) :
    r.length < s.length := by
  simp only [scanDigits?] at h
  split at h
  · simp at h
  · rename_i hd
    obtain ⟨⟨f, s'⟩, hf, h⟩ := Option.bind_eq_some_iff.1 h
    obtain ⟨⟨e, s''⟩, he, h⟩ := Option.map_eq_some_iff.1 h
    obtain ⟨-, -, rfl⟩ := h
    have hdrop : (s.dropWhile Char.isDigit).length < s.length :=
      length_dropWhile_lt fun hnil => hd (.inl (by simp [hnil]))
    have := length_scanFraction?_le hf
    have := length_scanExponent?_le he
    dsimp only at *
    omega

theorem length_scanNumber?_lt {s r : List Char} {t : Token} (h : scanNumber? s = some (t, r)) :
    r.length < s.length := by
  unfold scanNumber? at h
  split at h <;>
  · obtain ⟨⟨d, m, s'⟩, hs, h⟩ := Option.map_eq_some_iff.1 h
    have := length_scanDigits?_lt hs
    obtain ⟨-, rfl⟩ := Prod.mk.inj h
    first | exact this | exact Nat.lt_succ_of_lt this

theorem length_token?_lt {s r : List Char} {t : Token} (h : token? s = some (t, r)) :
    r.length < s.length := by
  unfold token? at h
  split at h
  case h_7 =>
    obtain ⟨⟨units, s'⟩, hs, h⟩ := Option.map_eq_some_iff.1 h
    obtain ⟨-, rfl⟩ := Prod.mk.inj h
    exact Nat.lt_succ_of_le (length_scanString_le hs)
  case h_11 => exact length_scanNumber?_lt h
  all_goals
    obtain ⟨-, rfl⟩ := Prod.mk.inj (Option.some.inj h)
    simp only [List.length_cons]
    omega

/-- The tokens of a text, after those read before in reverse. -/
def tokensAfter (before : List Token) (s : List Char) : Option (List Token) :=
  match _hs : s.dropWhile isBlank with
  | [] => some before.reverse
  | c :: r =>
    match _h : token? (c :: r) with
    | none => none
    | some (t, rest) => tokensAfter (t :: before) rest
termination_by s.length
decreasing_by
  have hlt := length_token?_lt ‹_›
  have hle := length_dropWhile_le isBlank s
  rw [‹s.dropWhile isBlank = _›] at hle
  omega

def tokens? (s : List Char) : Option (List Token) := tokensAfter [] s

end Json

end Datagram
