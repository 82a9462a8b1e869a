import Datagram.Idl.Line
import Datagram.Proofs.Idl.Word
import Datagram.Proofs.Text.Grammar

/-! # The code of a member

A member is written with its type and its name as words, with an array size or none, a bit width or
none, and a semicolon, and spaces and tabs may stand around each of them. This grammar is what the reader
of declarators accepts, and the words and numbers that it reads are those of the grammar. -/

namespace Datagram.Idl

open Datagram.Text

/-! ## The code of a member -/

/-- Words with a gap between each two of them. -/
inductive WordsCode : List (List Char) → List Char → Prop where
  | one {w} : Word w → WordsCode [w] w
  | more {w gap ws code} : Word w → Gap gap → gap ≠ [] → WordsCode ws code →
      WordsCode (w :: ws) (w ++ (gap ++ code))

/-- An array size between brackets, or nothing. -/
inductive ArrayCode : Option Nat → List Char → Prop where
  | none : ArrayCode none []
  | some {inner ds outer n} : Gap inner → Digits 10 ds n → Gap outer →
      ArrayCode (some n) ('[' :: (inner ++ (ds ++ (outer ++ [']']))))

/-- A bit width behind a colon, or nothing. -/
inductive WidthCode : Option Nat → List Char → Prop where
  | none : WidthCode none []
  | some {gap ds n} : Gap gap → Digits 10 ds n → WidthCode (some n) (':' :: (gap ++ ds))

/-- Two words or more, a size, a width and a semicolon, where gaps may stand around each of them. -/
inductive MemberCode (words : List (List Char)) (size width : Option Nat) : List Char → Prop where
  | intro {lead names a array b bits c d} : Gap lead → 2 ≤ words.length → WordsCode words names →
      Gap a → ArrayCode size array → Gap b → WidthCode width bits → Gap c → Gap d →
      MemberCode words size width
        (lead ++ (names ++ (a ++ (array ++ (b ++ (bits ++ (c ++ ';' :: d)))))))

/-- A number counts if it has 32 bits. -/
def counted (n : Option Nat) : Option Nat := n.filter (· < UInt32.size)

/-! ## Words -/

theorem WordsCode.word {ws : List (List Char)} {code : List Char} (h : WordsCode ws code) :
    ∀ w ∈ ws, Word w := by
  induction h with
  | one hw => exact List.forall_mem_singleton.mpr hw
  | more hw _ _ _ ih => exact List.forall_mem_cons.mpr ⟨hw, ih⟩

theorem WordsCode.inName {ws : List (List Char)} {code : List Char} (h : WordsCode ws code) :
    ∀ c ∈ code, (isWordChar c || isGap c) = true := by
  induction h with
  | one hw => exact hw.inName
  | more hw hgap _ _ ih =>
    simp only [List.forall_mem_append]
    exact ⟨hw.inName, hgap.inName, ih⟩

theorem WordsCode.append {ws vs : List (List Char)} {code gap rest : List Char}
    (h : WordsCode ws code) (hgap : Gap gap) (hne : gap ≠ []) (hrest : WordsCode vs rest) :
    WordsCode (ws ++ vs) (code ++ (gap ++ rest)) := by
  induction h with
  | one hw => exact .more hw hgap hne hrest
  | more hw hinner hinnerne _ ih =>
    rw [List.append_assoc, List.append_assoc]
    exact .more hw hinner hinnerne ih

theorem wordsCode_intercalate {ws : List (List Char)} (h : ∀ w ∈ ws, Word w) (hne : ws ≠ []) :
    WordsCode ws (List.intercalate [' '] ws) := by
  induction ws with
  | nil => exact absurd rfl hne
  | cons w ws ih =>
    rw [List.forall_mem_cons] at h
    cases ws with
    | nil =>
      rw [List.intercalate_singleton]
      exact .one h.1
    | cons v vs =>
      rw [List.intercalate_cons_cons, List.append_assoc]
      exact .more h.1 gap_space (List.cons_ne_nil _ _) (ih h.2 (List.cons_ne_nil v vs))

theorem gapWords_wordsCode {ws : List (List Char)} {code lead trail : List Char}
    (h : WordsCode ws code) (hlead : Gap lead) (htrail : Gap trail) :
    gapWords (lead ++ (code ++ trail)) = ws := by
  rw [gapWords_gap_append hlead]
  induction h with
  | one hw => exact gapWords_word_gap hw htrail
  | more hw hgap hne _ ih =>
    rw [List.append_assoc, List.append_assoc, gapWords_append_gap hw hgap hne, ih]

/-- A letter in front of words begins the first of them, or is a word of its own. -/
theorem exists_wordsCode_cons {c : Char} (hc : isWordChar c = true) {ws : List (List Char)}
    {lead code : List Char} (hlead : Gap lead) (h : WordsCode ws code) :
    ∃ ws', WordsCode ws' (c :: (lead ++ code)) := by
  have hword : Word [c] := ⟨List.cons_ne_nil c [], List.forall_mem_singleton.mpr hc⟩
  by_cases hne : lead = []
  · subst hne
    cases h with
    | one hw => exact ⟨_, .one (hword.append hw)⟩
    | more hw hgap hgapne hrest => exact ⟨_, .more (hword.append hw) hgap hgapne hrest⟩
  · exact ⟨[c] :: ws, .more hword hlead hne h⟩

/-- Letters and gaps are words, unless they are one gap. -/
theorem exists_wordsCode {s : List Char} (h : ∀ c ∈ s, (isWordChar c || isGap c) = true) :
    Gap s ∨ ∃ ws lead code trail, s = lead ++ (code ++ trail) ∧ Gap lead ∧ WordsCode ws code ∧
      Gap trail := by
  induction s with
  | nil => exact Or.inl (List.forall_mem_nil _)
  | cons c s ih =>
    rw [List.forall_mem_cons] at h
    have ih := ih h.2
    by_cases hgap : isGap c = true
    · rcases ih with hs | ⟨ws, lead, code, trail, rfl, hlead, hcode, htrail⟩
      · exact Or.inl (List.forall_mem_cons.mpr ⟨hgap, hs⟩)
      · exact Or.inr ⟨ws, c :: lead, code, trail, rfl, List.forall_mem_cons.mpr ⟨hgap, hlead⟩,
          hcode, htrail⟩
    · have hc : isWordChar c = true := by simpa [hgap] using h.1
      have hnone : Gap [] := List.forall_mem_nil _
      right
      rcases ih with hs | ⟨ws, lead, code, trail, rfl, hlead, hcode, htrail⟩
      · have hword : Word [c] := ⟨List.cons_ne_nil c [], List.forall_mem_singleton.mpr hc⟩
        exact ⟨[[c]], [], [c], s, rfl, hnone, .one hword, hs⟩
      · obtain ⟨ws', hws'⟩ := exists_wordsCode_cons hc hlead hcode
        exact ⟨ws', [], c :: (lead ++ code), trail, by simp, hnone, hws', htrail⟩

/-! ## Numbers -/

theorem word_of_digits {ds : List Char} {n : Nat} (h : Digits 10 ds n) : Word ds where
  nonempty := (ofDigits?_eq_some.mp (ofDigits?_of_digits (by decide) h)).1
  chars := by
    intro c hc
    simp [isWordChar, Char.isAlphanum, isDigit_of_digits h c hc]

theorem digits_decimal (n : Nat) : Digits 10 (decimal n) n :=
  digits_of_ofDigits? (by decide) (ofDigits?_decimal n)

theorem number?_of_digits {ds : List Char} {n : Nat} (h : Digits 10 ds n) :
    number? (some ds) = counted (some n) := by
  have hread := natural?_of_ofDigits? (ofDigits?_of_digits (by decide) h)
  rw [number?, Option.bind_some, naturalBelow?, hread, counted]

theorem digits?_append {ds t : List Char} (hne : ds ≠ []) (hdigits : ∀ c ∈ ds, c.isDigit = true)
    (ht : ∀ c, t.head? = some c → c.isDigit = false) : digits? (ds ++ t) = some (ds, t) := by
  have hsome : ds.isEmpty = false := List.isEmpty_eq_false_iff.mpr hne
  simp only [digits?, takeWhile_exact hdigits ht, dropWhile_exact hdigits ht, hsome,
    Bool.false_eq_true, if_false]

/-- Digits end where a gap begins. -/
theorem head_gap_append {gap t : List Char} (hgap : Gap gap)
    (ht : ∀ c, t.head? = some c → c.isDigit = false) :
    ∀ c, (gap ++ t).head? = some c → c.isDigit = false := by
  intro c hc
  cases gap with
  | nil => exact ht c hc
  | cons x gap =>
    cases hc
    rcases isGap_cases (hgap c List.mem_cons_self) with rfl | rfl <;> rfl

theorem exists_of_digits? {s ds t : List Char} (h : digits? s = some (ds, t)) :
    s = ds ++ t ∧ ∃ n, Digits 10 ds n := by
  rw [digits?] at h
  split at h
  · cases h
  · rename_i hsome
    cases h
    refine ⟨List.takeWhile_append_dropWhile.symm, exists_digits ?_ ?_⟩
    · simpa using hsome
    · exact fun c hc => List.mem_takeWhile_imp hc

/-! ## Reading the code -/

variable {words : List (List Char)} {size width : Option Nat}

theorem exists_of_arrayPart? {s t : List Char} {digits : Option (List Char)}
    (h : arrayPart? s = some (digits, t)) :
    ∃ size code, s = code ++ t ∧ ArrayCode size code ∧ number? digits = counted size := by
  unfold arrayPart? at h
  split at h
  · rename_i s
    cases hdigits : digits? (skipGap s) with
    | none =>
      rw [hdigits] at h
      cases h
    | some read =>
      obtain ⟨ds, rest⟩ := read
      rw [hdigits] at h
      dsimp only at h
      split at h
      · rename_i t hclose
        cases h
        obtain ⟨hs, n, hn⟩ := exists_of_digits? hdigits
        obtain ⟨inner, hinner, hbefore⟩ := exists_gap s
        obtain ⟨outer, houter, hafter⟩ := exists_gap rest
        refine ⟨some n, _, ?_, .some hinner hn houter, number?_of_digits hn⟩
        rw [hbefore, hs, hafter, hclose]
        simp
      · cases h
  · cases h
    exact ⟨none, [], rfl, .none, rfl⟩

theorem exists_of_bitPart? {s t : List Char} {digits : Option (List Char)}
    (h : bitPart? s = some (digits, t)) :
    ∃ width code, s = code ++ t ∧ WidthCode width code ∧ number? digits = counted width := by
  unfold bitPart? at h
  split at h
  · rename_i s
    obtain ⟨⟨ds, rest⟩, hdigits, heq⟩ := Option.map_eq_some_iff.mp h
    cases heq
    obtain ⟨hs, n, hn⟩ := exists_of_digits? hdigits
    obtain ⟨gap, hgap, hbefore⟩ := exists_gap s
    refine ⟨some n, _, ?_, .some hgap hn, number?_of_digits hn⟩
    rw [hbefore, hs]
    simp
  · cases h
    exact ⟨none, [], rfl, .none, rfl⟩

theorem exists_of_isEnd {s : List Char} (h : isEnd s = true) : ∃ gap, Gap gap ∧ s = ';' :: gap := by
  unfold isEnd at h
  split at h
  · rename_i s
    obtain ⟨gap, hgap, hs⟩ := exists_gap s
    rw [List.isEmpty_iff.mp h, List.append_nil] at hs
    exact ⟨gap, hgap, congrArg _ hs⟩
  · cases h

/-- What is read one after the other: words, a size, a width and a semicolon. -/
theorem declarator?_eq_some {code : List Char} {d : Declarator} :
    declarator? code = some d ↔ ∃ s t,
      d.words = gapWords (code.takeWhile fun c => isWordChar c || isGap c) ∧
      2 ≤ d.words.length ∧
      arrayPart? (code.dropWhile fun c => isWordChar c || isGap c) = some (d.arrayDigits, s) ∧
      bitPart? (skipGap s) = some (d.bitDigits, t) ∧ isEnd (skipGap t) = true := by
  constructor
  · intro h
    unfold declarator? at h
    dsimp only at h
    split at h
    · cases h
    · rename_i arrayDigits s harray
      split at h
      · cases h
      · rename_i bitDigits t hbits
        split at h
        · rename_i hend
          cases h
          rw [Bool.and_eq_true, decide_eq_true_eq] at hend
          exact ⟨s, t, rfl, hend.1, harray, hbits, hend.2⟩
        · cases h
  · rintro ⟨s, t, hwords, hlength, harray, hbits, hend⟩
    have hends : (decide (2 ≤ d.words.length) && isEnd (skipGap t)) = true := by
      rw [Bool.and_eq_true, decide_eq_true_eq]
      exact ⟨hlength, hend⟩
    rw [gapWords] at hwords
    rw [declarator?]
    simp only [harray, hbits, ← hwords]
    rw [if_pos hends]

/-- What is read as a member has its grammar. -/
theorem memberCode_of_declarator? {code : List Char} {d : Declarator}
    (h : declarator? code = some d) :
    ∃ size width, MemberCode d.words size width code ∧ number? d.arrayDigits = counted size ∧
      number? d.bitDigits = counted width := by
  obtain ⟨s, t, hread, hlength, harray, hbits, hend⟩ := declarator?_eq_some.mp h
  obtain ⟨size, array, hs, hsize, harrayNumber⟩ := exists_of_arrayPart? harray
  obtain ⟨width, bits, ht, hwidth, hbitsNumber⟩ := exists_of_bitPart? hbits
  obtain ⟨e, he, hsemicolon⟩ := exists_of_isEnd hend
  obtain ⟨b, hb, hbefore⟩ := exists_gap s
  obtain ⟨c, hc, hafter⟩ := exists_gap t
  have hname : ∀ x ∈ code.takeWhile (fun c => isWordChar c || isGap c),
      (isWordChar x || isGap x) = true :=
    fun x hx => List.mem_takeWhile_imp (p := fun c => isWordChar c || isGap c) hx
  rcases exists_wordsCode hname with hgap | ⟨ws, lead, names, a, hnames, hlead, hwords, ha⟩
  · rw [hread, gapWords_of_gap hgap] at hlength
    exact absurd hlength (by decide)
  · rw [hnames, gapWords_wordsCode hwords hlead ha] at hread
    subst hread
    have hcode : lead ++ (names ++ (a ++ (array ++ (b ++ (bits ++ (c ++ ';' :: e)))))) = code := by
      symm
      calc code = (code.takeWhile fun c => isWordChar c || isGap c) ++
            code.dropWhile fun c => isWordChar c || isGap c :=
              List.takeWhile_append_dropWhile.symm
        _ = (lead ++ (names ++ a)) ++ (array ++ (b ++ (bits ++ (c ++ ';' :: e)))) := by
          rw [hnames, hs, hbefore, ht, hafter, hsemicolon]
        _ = _ := by simp
    refine ⟨size, width, ?_, harrayNumber, hbitsNumber⟩
    rw [← hcode]
    exact .intro hlead hlength hwords ha hsize hb hwidth hc he

/-- What ends a name: neither a letter nor a gap, nor the bracket of an array. -/
def EndsName (s : List Char) : Prop :=
  ∀ c, s.head? = some c → (isWordChar c || isGap c) = false ∧ c ≠ '['

theorem endsName_cons {c : Char} (hname : (isWordChar c || isGap c) = false) (hopen : c ≠ '[')
    (s : List Char) : EndsName (c :: s) := by
  rintro _ ⟨⟩
  exact ⟨hname, hopen⟩

theorem bitPart?_of_widthCode {bits c d : List Char} (h : WidthCode width bits) (hc : Gap c) :
    EndsName (skipGap (bits ++ (c ++ ';' :: d))) ∧
    ∃ digits s, bitPart? (skipGap (bits ++ (c ++ ';' :: d))) = some (digits, s) ∧
      skipGap s = ';' :: d ∧ number? digits = counted width := by
  have hend : skipGap (c ++ ';' :: d) = ';' :: d := skipGap_gap_append hc _
  cases h with
  | none =>
    rw [List.nil_append, hend]
    exact ⟨endsName_cons rfl (by decide) d, none, ';' :: d, rfl, rfl, rfl⟩
  | @some gap ds n hgap hds =>
    have hskip : skipGap (':' :: (gap ++ ds) ++ (c ++ ';' :: d)) =
        ':' :: (gap ++ (ds ++ (c ++ ';' :: d))) := by
      rw [List.cons_append, List.append_assoc]
      rfl
    have hword := word_of_digits hds
    have hstop := head_gap_append (t := ';' :: d) hc (by rintro _ ⟨⟩; rfl)
    refine ⟨hskip ▸ endsName_cons rfl (by decide) _, some ds, c ++ ';' :: d, ?_, hend,
      number?_of_digits hds⟩
    rw [hskip, bitPart?, skipGap_gap_append hgap, hword.skipGap_append,
      digits?_append hword.nonempty (isDigit_of_digits hds) hstop]
    rfl

theorem arrayPart?_of_arrayCode {array b t : List Char} (h : ArrayCode size array) (hb : Gap b)
    (ht : EndsName (skipGap t)) :
    (∀ c, (skipGap (array ++ (b ++ t))).head? = some c → (isWordChar c || isGap c) = false) ∧
    ∃ digits s, arrayPart? (skipGap (array ++ (b ++ t))) = some (digits, s) ∧
      skipGap s = skipGap t ∧ number? digits = counted size := by
  cases h with
  | none =>
    rw [List.nil_append, skipGap_gap_append hb]
    refine ⟨fun c hc => (ht c hc).1, none, skipGap t, ?_, skipGap_skipGap t, rfl⟩
    unfold arrayPart?
    split
    · rename_i s hs
      exact absurd rfl (ht '[' (by rw [hs]; rfl)).2
    · rfl
  | @some inner ds outer n hinner hds houter =>
    have hskip : skipGap ('[' :: (inner ++ (ds ++ (outer ++ [']']))) ++ (b ++ t)) =
        '[' :: (inner ++ (ds ++ (outer ++ ']' :: (b ++ t)))) := by
      simp [skipGap, isGap]
    have hword := word_of_digits hds
    have hstop := head_gap_append (t := ']' :: (b ++ t)) houter (by rintro _ ⟨⟩; rfl)
    have hclose : skipGap (']' :: (b ++ t)) = ']' :: (b ++ t) := rfl
    rw [hskip]
    refine ⟨?_, some ds, b ++ t, ?_, skipGap_gap_append hb t, number?_of_digits hds⟩
    · rintro _ ⟨⟩
      rfl
    · simp only [arrayPart?, skipGap_gap_append hinner, hword.skipGap_append,
        digits?_append hword.nonempty (isDigit_of_digits hds) hstop, skipGap_gap_append houter,
        hclose]

/-- What has the grammar of a member is read as one. -/
theorem declarator?_of_memberCode {code : List Char} (h : MemberCode words size width code) :
    ∃ d, declarator? code = some d ∧ d.words = words ∧ number? d.arrayDigits = counted size ∧
      number? d.bitDigits = counted width := by
  obtain @⟨lead, names, a, array, b, bits, c, e, hlead, hlength, hwords, ha, hsize, hb, hwidth, hc,
    he⟩ := h
  obtain ⟨hends, bitDigits, t, hbits, ht, hbitsNumber⟩ := bitPart?_of_widthCode (d := e) hwidth hc
  obtain ⟨hstop, arrayDigits, s, harray, hs, harrayNumber⟩ := arrayPart?_of_arrayCode hsize hb hends
  -- The gap behind the last word is read with the words, the gap of an absent size too.
  obtain ⟨gap, hgap, htail⟩ := exists_gap (array ++ (b ++ (bits ++ (c ++ ';' :: e))))
  generalize skipGap (array ++ (b ++ (bits ++ (c ++ ';' :: e)))) = tail at *
  have htrail : Gap (a ++ gap) := List.forall_mem_append.mpr ⟨ha, hgap⟩
  have hname : ∀ x ∈ lead ++ (names ++ (a ++ gap)), (isWordChar x || isGap x) = true := by
    simp only [List.forall_mem_append]
    exact ⟨hlead.inName, hwords.inName, ha.inName, hgap.inName⟩
  have hcode : lead ++ (names ++ (a ++ (array ++ (b ++ (bits ++ (c ++ ';' :: e)))))) =
      (lead ++ (names ++ (a ++ gap))) ++ tail := by
    rw [htail]
    simp
  have hend : isEnd (skipGap t) = true := by
    have hskip : skipGap e = [] := by
      rw [← List.append_nil e, skipGap_gap_append he]
      rfl
    rw [ht, isEnd, hskip]
    rfl
  refine ⟨⟨words, arrayDigits, bitDigits⟩, declarator?_eq_some.mpr ⟨s, t, ?_, hlength, ?_, ?_, hend⟩,
    rfl, harrayNumber, hbitsNumber⟩
  · rw [hcode, takeWhile_exact hname hstop, gapWords_wordsCode hwords hlead htrail]
  · rw [hcode, dropWhile_exact hname hstop, harray]
  · rw [hs, hbits]

/-! ## Words and signs of the code -/

theorem MemberCode.word {code : List Char} (h : MemberCode words size width code) :
    ∀ w ∈ words, Word w := by
  obtain ⟨-, -, hwords, -⟩ := h
  exact hwords.word

/-- A comment begins behind the code of a member. -/
theorem MemberCode.slash_not_mem {code : List Char} (h : MemberCode words size width code) :
    '/' ∉ code := by
  obtain ⟨hlead, -, hwords, ha, hsize, hb, hwidth, hc, he⟩ := h
  have hname : ∀ {s : List Char}, (∀ c ∈ s, (isWordChar c || isGap c) = true) →
      ∀ c ∈ s, c ≠ '/' := by
    rintro s hs c hc rfl
    exact absurd (hs '/' hc) (by decide)
  suffices hall : ∀ c ∈ _, c ≠ '/' from fun hmem => hall '/' hmem rfl
  simp only [List.forall_mem_append, List.forall_mem_cons]
  refine ⟨hname hlead.inName, hname hwords.inName, hname ha.inName, ?_, hname hb.inName, ?_,
    hname hc.inName, by decide, hname he.inName⟩
  · cases hsize with
    | none => exact List.forall_mem_nil _
    | some hinner hds houter =>
      simp only [List.forall_mem_append, List.forall_mem_cons]
      exact ⟨by decide, hname hinner.inName, hname (word_of_digits hds).inName,
        hname houter.inName, by decide, List.forall_mem_nil _⟩
  · cases hwidth with
    | none => exact List.forall_mem_nil _
    | some hgap hds =>
      simp only [List.forall_mem_append, List.forall_mem_cons]
      exact ⟨by decide, hname hgap.inName, hname (word_of_digits hds).inName⟩

theorem MemberCode.ne_nil {code : List Char} (h : MemberCode words size width code) :
    words ≠ [] := by
  obtain ⟨-, hlength, -⟩ := h
  rintro rfl
  exact absurd hlength (by decide)

theorem WordsCode.head {code : List Char} (h : WordsCode words code) :
    ∃ c t, code = c :: t ∧ isWordChar c = true := by
  have hhead : ∀ w t, Word w → ∃ c r, w ++ t = c :: r ∧ isWordChar c = true := by
    intro w t hw
    obtain ⟨c, r, rfl⟩ := List.exists_cons_of_ne_nil hw.nonempty
    exact ⟨c, r ++ t, rfl, hw.chars c List.mem_cons_self⟩
  cases h with
  | one hw =>
    have hcode := hhead _ [] hw
    rwa [List.append_nil] at hcode
  | more hw => exact hhead _ _ hw

end Datagram.Idl
