import Datagram.Proofs.Idl.Silent
import Datagram.Proofs.Idl.Source

/-! # Bodies in any layout

The members of a struct are its statements one by one, however spaces, tabs and ends of lines part them
from each other and from the braces. The text is read line by line, so the proofs follow it: a space or
a tab stands in front of its line, an end of a line is one more step of the loop that reads lines, and a
statement gives its line one more member. -/

namespace Datagram.Idl

open Datagram.Text

/-! ## The grammar -/

/-- A text without line feeds, braces and comments, with one semicolon, which ends it. -/
structure Statement (s : List Char) : Prop where
  unbroken : '\n' ∉ s
  uncommented : ¬ ['/', '/'] <:+: s
  unopened : '\x7b' ∉ s
  unclosed : '\x7d' ∉ s
  ends : ∃ code, s = code ++ [';'] ∧ ';' ∉ code

/-- A space, a tab, and the two ends of a line. -/
def spaces : List (List Char) := [[' '], ['\t'], ['\n'], ['\r', '\n']]

/-- Statements and the brace that closes a body, with any spaces in front of each and behind the brace. -/
inductive BodyText : List (List Char) → List Char → Prop where
  | space {sp : List Char} {ss : List (List Char)} {t : List Char} :
      sp ∈ spaces → BodyText ss t → BodyText ss (sp ++ t)
  | statement {ss : List (List Char)} {t : List Char} (s : List Char) :
      BodyText ss t → BodyText (s :: ss) (s ++ t)
  | close {sps : List (List Char)} : sps ⊆ spaces → BodyText [] ('\x7d' :: sps.flatten)

/-- A body from its opening brace on, with any spaces in front of the brace. -/
inductive OpenedText : List (List Char) → List Char → Prop where
  | space {sp : List Char} {ss : List (List Char)} {t : List Char} :
      sp ∈ spaces → OpenedText ss t → OpenedText ss (sp ++ t)
  | brace {ss : List (List Char)} {t : List Char} : BodyText ss t → OpenedText ss ('\x7b' :: t)

/-- The marker of a heading, with a gap in front of it. -/
inductive MarkerText : Option (List Char) → List Char → Prop where
  | none : MarkerText none []
  | some {gap : List Char} (marker : List Char) :
      Gap gap → MarkerText (some marker) (gap ++ '/' :: '/' :: '$' :: '(' :: (marker ++ [')', '$']))

/-- The source of a struct with a name, a marker and statements. -/
inductive StructText (name : List Char) (marker : Option (List Char)) (ss : List (List Char)) :
    List Char → Prop where
  | mk {indent gap code t : List Char} :
      Gap indent → Gap gap → gap ≠ [] → MarkerText marker code → OpenedText ss t →
        StructText name marker ss (indent ++ ("struct".toList ++ (gap ++ (name ++ (code ++ t)))))

variable {s t l code : List Char} {ss ls : List (List Char)}

/-- A space stands in front of its line, or is a line of its own that is empty. -/
theorem rows_space {sp : List Char} (h : sp ∈ spaces) :
    (∃ c, isGap c = true ∧ sp = [c]) ∨ ∀ s, rows (sp ++ s) = [] :: rows s := by
  simp only [spaces, List.mem_cons, List.not_mem_nil, or_false] at h
  rcases h with rfl | rfl | rfl | rfl
  · exact Or.inl ⟨' ', rfl, rfl⟩
  · exact Or.inl ⟨'\t', rfl, rfl⟩
  · exact Or.inr rows_newline
  · exact Or.inr rows_return_newline

theorem rows_append_gap {c : Char} (hc : isGap c = true) (ht : rows t = l :: ls) :
    rows ([c] ++ t) = (c :: l) :: ls := by
  apply rows_append _ _ ht
  · rintro ⟨⟩
    · exact absurd hc (by decide)
    · contradiction
  · rintro ⟨⟩
    exact absurd hc (by decide)

/-- What holds of the lines of a text holds of them behind a space too, if it may have a gap in front of
its first line, and an empty line. -/
theorem rows_space_induction {P : Line → List Line → Prop} {sp : List Char} (hsp : sp ∈ spaces)
    (ht : ∀ l ls, rows t = l :: ls → P l ls)
    (gap : ∀ c l, isGap c = true → c :: l <:+: sp ++ t → ∀ ls, P l ls → P (c :: l) ls)
    (newline : ∀ l ls, P l ls → P [] (l :: ls)) (hrows : rows (sp ++ t) = l :: ls) : P l ls := by
  obtain ⟨k, ks, hk⟩ := exists_rows t
  rcases rows_space hsp with ⟨c, hc, rfl⟩ | hnewline
  · have hinfix : l <:+: [c] ++ t := infix_of_mem_rows (hrows ▸ List.mem_cons_self)
    rw [rows_append_gap hc hk] at hrows
    obtain ⟨rfl, rfl⟩ := List.cons.inj hrows
    exact gap c k hc hinfix ks (ht k ks hk)
  · rw [hnewline, hk] at hrows
    obtain ⟨rfl, rfl⟩ := List.cons.inj hrows
    exact newline k ks (ht k ks hk)

theorem Statement.getLast?_ne (h : Statement s) : s.getLast? ≠ some '\r' := by
  obtain ⟨code, rfl, _⟩ := h.ends
  rw [List.getLast?_concat]
  decide

theorem isBlank_of_isGap {c : Char} (h : isGap c = true) : isBlank c = true := by
  rcases isGap_cases h with rfl | rfl
  · decide
  · decide

theorem isBlank_of_mem_flatten {sps : List (List Char)} (h : sps ⊆ spaces) {c : Char}
    (hc : c ∈ sps.flatten) : isBlank c = true := by
  obtain ⟨sp, hsp, hc⟩ := List.mem_flatten.mp hc
  have hall : ∀ sp ∈ spaces, sp.all isBlank = true := by decide
  exact List.all_eq_true.mp (hall sp (h hsp)) c hc

/-! ## Texts without comments -/

/-- There are no two slashes in the text. -/
def Uncommented (s : List Char) : Prop := ¬ ['/', '/'] <:+: s

theorem Uncommented.mono (h : Uncommented t) (hs : s <:+: t) : Uncommented s :=
  fun hslashes => h (hslashes.trans hs)

theorem uncommented_of_not_mem (h : '/' ∉ s) : Uncommented s := fun hslashes =>
  h (hslashes.subset (by simp))

theorem Uncommented.cons {c : Char} (hc : c ≠ '/') (h : Uncommented s) : Uncommented (c :: s) := by
  intro hslashes
  rcases List.infix_cons_iff.mp hslashes with ⟨r, hr⟩ | hslashes
  · exact hc (List.cons.inj hr).1.symm
  · exact h hslashes

theorem Uncommented.space {sp : List Char} (hsp : sp ∈ spaces) (h : Uncommented s) :
    Uncommented (sp ++ s) := by
  simp only [spaces, List.mem_cons, List.not_mem_nil, or_false] at hsp
  rcases hsp with rfl | rfl | rfl | rfl
  · exact h.cons (by decide)
  · exact h.cons (by decide)
  · exact h.cons (by decide)
  · exact (h.cons (by decide)).cons (by decide)

/-- Behind a semicolon no slash completes a comment that begins in front of it. -/
theorem Uncommented.append (hs : Uncommented (code ++ [';'])) (ht : Uncommented t) :
    Uncommented (code ++ [';'] ++ t) := by
  intro hslashes
  rcases List.infix_append_iff.mp hslashes with h | h | ⟨a, b, hab, ha, hb⟩
  · exact hs h
  · exact ht h
  · rcases List.eq_nil_or_concat a with rfl | ⟨a, c, rfl⟩
    · rw [List.nil_append] at hab
      exact ht (hab ▸ hb.isInfix)
    · have hslash : c = '/' := by
        have hmem : c ∈ ['/', '/'] := by simp [hab]
        simpa using hmem
      obtain ⟨r, hr⟩ := ha
      have hlast : c = ';' := by
        have hlast := congrArg List.getLast? hr
        simpa using hlast
      rw [hslash] at hlast
      exact absurd hlast (by decide)

theorem splitComment_of_uncommented (h : Uncommented s) : splitComment s = (s, []) := by
  rw [splitComment_eq_iff]
  refine ⟨(List.append_nil s).symm, Or.inl rfl, ?_⟩
  rintro before after rfl
  exact absurd ⟨before, after, by simp⟩ h

theorem splitMarker_of_uncommented (h : Uncommented s) : splitMarker s = (none, s) := by
  unfold splitMarker
  split
  · rename_i body
    exact absurd (List.prefix_append ['/', '/'] ('$' :: '(' :: body)).isInfix h
  · rfl

theorem uncommented_of_bodyText (hs : ∀ s ∈ ss, Statement s) (h : BodyText ss t) : Uncommented t := by
  induction h with
  | space hsp _ ih => exact (ih hs).space hsp
  | statement s _ ih =>
    have hstatement := hs s List.mem_cons_self
    obtain ⟨code, rfl, _⟩ := hstatement.ends
    exact Uncommented.append hstatement.uncommented (ih fun r hr => hs r (List.mem_cons_of_mem _ hr))
  | close hsps =>
    refine (uncommented_of_not_mem fun hmem => ?_).cons (by decide)
    exact absurd (isBlank_of_mem_flatten hsps hmem) (by decide)

theorem uncommented_of_openedText (hs : ∀ s ∈ ss, Statement s) (h : OpenedText ss t) :
    Uncommented t := by
  induction h with
  | space hsp _ ih => exact (ih hs).space hsp
  | brace h => exact (uncommented_of_bodyText hs h).cons (by decide)

/-! ## Members of a line -/

/-- The members of the statements in a code. -/
def codeMembers (types : TypeTable) (code : List Char) : List Member :=
  (statements code).filterMap (member? types)

variable (types : TypeTable)

theorem attachComment_nil (ss : List (List Char)) : attachComment [] ss = ss := by
  fun_induction attachComment [] ss with
  | case1 => rfl
  | case2 s => rw [List.append_nil]
  | case3 s ss _ ih => rw [ih]

theorem lineMembers_of_uncommented (h : Uncommented l) :
    lineMembers types l = codeMembers types (l.takeWhile (· ≠ '\x7d')) := by
  unfold lineMembers
  simp only [splitComment_of_uncommented h, ite_self, attachComment_nil]
  rfl

theorem closes_of_uncommented (h : Uncommented l) : closes l = decide ('\x7d' ∈ l) := by
  rw [closes, splitComment_of_uncommented h]

theorem member?_cons_blank {c : Char} (hc : isBlank c = true) (s : List Char) :
    member? types (c :: s) = member? types s := by
  rw [member?, member?, trim_cons_blank hc]

theorem codeMembers_cons_blank {c : Char} (hc : isBlank c = true) (code : List Char) :
    codeMembers types (c :: code) = codeMembers types code := by
  have hne : (c == ';') = false := by
    rw [beq_eq_false_iff_ne]
    rintro rfl
    exact absurd hc (by decide)
  have hsplit : (c :: code).splitOn ';' = (code.splitOn ';').modifyHead (List.cons c) := by
    rw [List.splitOn, List.splitOnP_cons_eq_if_modifyHead, hne]
    rfl
  rw [codeMembers, codeMembers, statements, statements, hsplit]
  rcases code.splitOn ';' with _ | ⟨s, _ | ⟨r, ss⟩⟩
  · rfl
  · rfl
  · have hmember : member? types (c :: s ++ [';']) = member? types (s ++ [';']) :=
      member?_cons_blank types hc _
    simp only [List.modifyHead_cons, List.dropLast_cons_cons, List.map_cons, List.filterMap_cons, hmember]

theorem codeMembers_append (hcode : ';' ∉ code) (s : List Char) :
    codeMembers types (code ++ [';'] ++ s) =
      (member? types (code ++ [';'])).toList ++ codeMembers types s := by
  have hsplit : (code ++ [';'] ++ s).splitOn ';' = code :: s.splitOn ';' := by
    rw [List.append_assoc, List.singleton_append, List.splitOn_append_cons_self_of_not_mem hcode]
  rw [codeMembers, codeMembers, statements, statements, hsplit,
    List.dropLast_cons_of_ne_nil (List.splitOn_ne_nil _ _), List.map_cons, List.filterMap_cons]
  cases member? types (code ++ [';']) with
  | none => rfl
  | some m => rfl

/-- What stands in front of a line without a brace in it does not close the line's body. -/
theorem closes_append {a : List Char} (ha : '\x7d' ∉ a) (h : Uncommented (a ++ l)) :
    closes (a ++ l) = closes l := by
  have hl : Uncommented l := h.mono (List.suffix_append a l).isInfix
  simp [closes_of_uncommented h, closes_of_uncommented hl, ha]

theorem lineMembers_append {a : List Char} (ha : '\x7d' ∉ a) (h : Uncommented (a ++ l)) :
    lineMembers types (a ++ l) = codeMembers types (a ++ l.takeWhile (· ≠ '\x7d')) := by
  have hpos : ∀ c ∈ a, decide (c ≠ '\x7d') = true := fun c hc =>
    decide_eq_true (ne_of_mem_of_not_mem hc ha)
  rw [lineMembers_of_uncommented types h, List.takeWhile_append_of_pos hpos]

/-! ## Lines of a body -/

/-- In a line without comments words and gaps stand in front of what a heading leaves of the line. -/
theorem exists_front_of_heading? {h : Heading} (hheading : heading? l = some h) (hl : Uncommented l) :
    ∃ front, l = front ++ h.trailer ∧ ∀ c ∈ front, isWordChar c = true ∨ isGap c = true := by
  unfold heading? at hheading
  split at hheading
  · cases hheading
  · rename_i s hs
    have hkeyword : "struct".toList ++ s = skipGap l := List.isPrefixOf?_eq_some_iff_append_eq.mp hs
    obtain ⟨indent, hindent, hwhole⟩ := exists_gap l
    obtain ⟨gap, hgap, hbehind⟩ := exists_gap s
    dsimp only at hheading
    split at hheading
    · have hname := List.takeWhile_append_dropWhile (p := isWordChar) (l := skipGap s)
      have hword : ∀ c ∈ (skipGap s).takeWhile isWordChar, isWordChar c = true :=
        fun _ hc => List.mem_takeWhile_imp hc
      generalize (skipGap s).takeWhile isWordChar = name at hname hword hheading
      generalize (skipGap s).dropWhile isWordChar = r at hname hheading
      obtain ⟨gap', hgap', hr⟩ := exists_gap r
      have hsplit : l = (indent ++ ("struct".toList ++ (gap ++ (name ++ gap')))) ++ skipGap r := by
        calc l = indent ++ ("struct".toList ++ (gap ++ (name ++ (gap' ++ skipGap r)))) := by
              rw [← hr, hname, ← hbehind, hkeyword, ← hwhole]
          _ = _ := by simp only [List.append_assoc]
      have hmarker : splitMarker (skipGap r) = (none, skipGap r) :=
        splitMarker_of_uncommented (hl.mono (hsplit ▸ (List.suffix_append _ _).isInfix))
      rw [hmarker] at hheading
      rw [← Option.some.inj hheading]
      refine ⟨_, hsplit, ?_⟩
      simp only [List.forall_mem_append]
      exact ⟨fun c hc => Or.inr (hindent c hc), fun c hc => Or.inl (word_struct.chars c hc),
        fun c hc => Or.inr (hgap c hc), fun c hc => Or.inl (hword c hc),
        fun c hc => Or.inr (hgap' c hc)⟩
    · cases hheading

theorem exists_trimStart_append (code : List Char) : ∃ c s,
    trimStart (code ++ ';' :: l) = c :: s ∧ (c ∈ code ∨ c = ';') := by
  have hsemicolon : isBlank ';' = false := by decide
  induction code with
  | nil => exact ⟨';', l, trimStart_cons hsemicolon l, Or.inr rfl⟩
  | cons d code ih =>
    cases hd : isBlank d with
    | true =>
      obtain ⟨c, s, hs, hc⟩ := ih
      refine ⟨c, s, ?_, hc.imp_left (List.mem_cons_of_mem d)⟩
      rw [← hs, List.cons_append, trimStart, List.dropWhile_cons_of_pos hd, trimStart]
    | false => exact ⟨d, code ++ ';' :: l, trimStart_cons hd _, Or.inl List.mem_cons_self⟩

/-- A line that begins with a statement is no declaration, also if its first word is the keyword. -/
theorem isDeclaration_statement (hopen : '\x7b' ∉ code) (hl : Uncommented (code ++ ';' :: l)) :
    isDeclaration (code ++ ';' :: l) = false := by
  rw [Bool.eq_false_iff]
  intro hd
  obtain ⟨h, hdeclares⟩ := Option.isSome_iff_exists.mp hd
  obtain ⟨hheading, htrailer⟩ := Option.filter_eq_some_iff.mp hdeclares
  obtain ⟨front, hsplit, hfront⟩ := exists_front_of_heading? hheading hl
  have hsemicolon : ';' ∉ front := fun hmem => absurd (hfront _ hmem) (by decide)
  -- The semicolon stands behind the heading, with the end of the code in front of it.
  obtain ⟨r, hcode, hrest⟩ : ∃ r, code = front ++ r ∧ h.trailer = r ++ ';' :: l := by
    rcases List.append_eq_append_iff.mp hsplit with ⟨r, hr, hrest⟩ | ⟨r, hr, hrest⟩
    · cases r with
      | nil => exact ⟨[], by simpa using hr.symm, hrest.symm⟩
      | cons c r =>
        obtain ⟨rfl, _⟩ := List.cons.inj hrest
        exact absurd (hr ▸ by simp) hsemicolon
    · exact ⟨r, hr, hrest⟩
  obtain ⟨c, s, htrim, hc⟩ := exists_trimStart_append (l := l) r
  have huncommented : Uncommented h.trailer := hl.mono (hsplit ▸ (List.suffix_append _ _).isInfix)
  rw [splitComment_of_uncommented huncommented, hrest, htrim] at htrailer
  obtain rfl : c = '\x7b' := of_decide_eq_true htrailer
  rcases hc with hmem | heq
  · exact hopen (hcode ▸ List.mem_append_right _ hmem)
  · exact absurd heq (by decide)

theorem readBody_plain (h : isDeclaration l = false) (ls : List Line) :
    readBody types (l :: ls) = readOpened types (some l) ls := by
  rw [readBody, if_neg (Bool.eq_false_iff.mp h), readOpened]

/-- A first line with more members in front gives the body these members. -/
theorem readOpened_of_members {k : Line} {front : List Member} (hcloses : closes k = closes l)
    (hmembers : lineMembers types k = front ++ lineMembers types l) (ls : List Line) :
    readOpened types (some k) ls =
      (front ++ (readOpened types (some l) ls).1, (readOpened types (some l) ls).2) := by
  rw [readOpened, readOpened, hcloses, hmembers]
  split
  · rfl
  · rw [List.append_assoc]

/-- The lines of a body from one behind the opening brace on give the members of the statements, and what
is left of them declares nothing. -/
structure ReadsBody (ss : List (List Char)) (l : Line) (ls : List Line) : Prop where
  plain : isDeclaration l = false
  reads : ∃ rest, readOpened types (some l) ls = (ss.filterMap (member? types), rest) ∧
    Undeclared rest

theorem isDeclaration_cons_gap {c : Char} (hc : isGap c = true) (l : Line) :
    isDeclaration (c :: l) = isDeclaration l := by
  have hskip : skipGap (c :: l) = skipGap l := List.dropWhile_cons_of_pos hc
  rw [isDeclaration, isDeclaration, declaration?, declaration?, heading?, heading?, hskip]

theorem ReadsBody.gap {c : Char} (hc : isGap c = true) (hl : Uncommented (c :: l))
    (h : ReadsBody types ss l ls) : ReadsBody types ss (c :: l) ls := by
  have hclose : '\x7d' ∉ [c] := by
    rw [List.mem_singleton]
    rintro rfl
    exact absurd hc (by decide)
  have hmembers : lineMembers types (c :: l) = [] ++ lineMembers types l := by
    have hsuffix : Uncommented l := hl.mono (List.suffix_cons c l).isInfix
    have happend := lineMembers_append types (a := [c]) hclose hl
    rw [List.singleton_append, List.singleton_append] at happend
    rw [happend, codeMembers_cons_blank types (isBlank_of_isGap hc),
      lineMembers_of_uncommented types hsuffix, List.nil_append]
  have hcloses : closes (c :: l) = closes l := closes_append (a := [c]) hclose hl
  obtain ⟨rest, hreads, hrest⟩ := h.reads
  refine ⟨(isDeclaration_cons_gap hc l).trans h.plain, rest, ?_, hrest⟩
  rw [readOpened_of_members types hcloses hmembers, hreads, List.nil_append]

theorem ReadsBody.newline (h : ReadsBody types ss l ls) : ReadsBody types ss [] (l :: ls) := by
  refine ⟨rfl, ?_⟩
  have hmembers : lineMembers types [] = [] := rfl
  have hcloses : closes [] = false := rfl
  rw [readOpened, hcloses, if_neg Bool.false_ne_true, hmembers, List.nil_append,
    readBody_plain types h.plain]
  exact h.reads

theorem ReadsBody.statement (hs : Statement s) (hl : Uncommented (s ++ l))
    (h : ReadsBody types ss l ls) : ReadsBody types (s :: ss) (s ++ l) ls := by
  obtain ⟨code, rfl, hcode⟩ := hs.ends
  have hmembers : lineMembers types (code ++ [';'] ++ l) =
      (member? types (code ++ [';'])).toList ++ lineMembers types l := by
    have hsuffix : Uncommented l := hl.mono (List.suffix_append _ l).isInfix
    rw [lineMembers_append types hs.unclosed hl, codeMembers_append types hcode,
      lineMembers_of_uncommented types hsuffix]
  refine ⟨?_, ?_⟩
  · rw [List.append_assoc, List.singleton_append] at hl ⊢
    exact isDeclaration_statement (fun hmem => hs.unopened (List.mem_append_left _ hmem)) hl
  · obtain ⟨rest, hreads, hrest⟩ := h.reads
    refine ⟨rest, ?_, hrest⟩
    rw [readOpened_of_members types (closes_append hs.unclosed hl) hmembers, hreads,
      List.filterMap_cons]
    cases member? types (code ++ [';']) with
    | none => rfl
    | some m => rfl

theorem undeclared_of_blank (ht : ∀ c ∈ t, isBlank c = true) : Undeclared (rows t) := by
  intro l hl
  apply isDeclaration_of_isSilent
  have hblank : l.all isBlank = true := List.all_eq_true.mpr fun c hc =>
    ht c ((infix_of_mem_rows hl).subset hc)
  rw [isSilent, hblank, Bool.true_or]

theorem ReadsBody.close (hl : Uncommented ('\x7d' :: l)) (hrest : Undeclared ls) :
    ReadsBody types [] ('\x7d' :: l) ls := by
  have hcloses : closes ('\x7d' :: l) = true := by
    rw [closes_of_uncommented hl]
    exact decide_eq_true List.mem_cons_self
  have hmembers : lineMembers types ('\x7d' :: l) = [] := by
    rw [lineMembers_of_uncommented types hl]
    rfl
  refine ⟨?_, ls, ?_, hrest⟩
  · exact isDeclaration_of_skipGap fun s hs => by cases hs
  · rw [readOpened, hcloses, if_pos rfl, hmembers, List.filterMap_nil]

theorem readsBody_of_bodyText (hs : ∀ s ∈ ss, Statement s) (h : BodyText ss t)
    (ht : rows t = l :: ls) : ReadsBody types ss l ls := by
  have huncommented := uncommented_of_bodyText hs h
  have hline : Uncommented l := huncommented.mono (infix_of_mem_rows (ht ▸ List.mem_cons_self))
  induction h generalizing l ls with
  | @space sp ss t hsp h ih =>
    have hrest := uncommented_of_bodyText hs h
    refine rows_space_induction hsp ?_ ?_ ?_ ht
    · exact fun k ks hk =>
        ih hs hk hrest (hrest.mono (infix_of_mem_rows (hk ▸ List.mem_cons_self)))
    · exact fun c k hc hinfix ks hk => hk.gap types hc (huncommented.mono hinfix)
    · exact fun k ks hk => hk.newline
  | @statement ss t s h ih =>
    obtain ⟨k, ks, hk⟩ := exists_rows t
    have hstatement := hs s List.mem_cons_self
    have hss : ∀ r ∈ ss, Statement r := fun r hr => hs r (List.mem_cons_of_mem _ hr)
    rw [rows_append hstatement.unbroken hstatement.getLast?_ne hk] at ht
    obtain ⟨rfl, rfl⟩ := List.cons.inj ht
    have hfirst : Uncommented k := hline.mono (List.suffix_append s k).isInfix
    exact (ih hss hk (uncommented_of_bodyText hss h) hfirst).statement types hstatement hline
  | @close sps hsps =>
    obtain ⟨k, ks, hk⟩ := exists_rows sps.flatten
    have hrows := (rows_append (a := ['\x7d']) (by decide) (by decide) hk).symm.trans ht
    obtain ⟨rfl, rfl⟩ := List.cons.inj hrows
    have hrest : Undeclared (rows sps.flatten) :=
      undeclared_of_blank fun c hc => isBlank_of_mem_flatten hsps hc
    rw [hk] at hrest
    exact ReadsBody.close types hline fun m hm => hrest m (List.mem_cons_of_mem _ hm)

/-! ## Lines up to the opening brace -/

theorem afterBrace?_cons_gap {c : Char} (hc : isGap c = true) (hl : Uncommented (c :: l)) :
    afterBrace? (c :: l) = afterBrace? l := by
  have hne : c ≠ '\x7b' := by
    rintro rfl
    exact absurd hc (by decide)
  have hsuffix : Uncommented l := hl.mono (List.suffix_cons c l).isInfix
  rw [afterBrace?, afterBrace?, splitComment_of_uncommented hl, splitComment_of_uncommented hsuffix]
  simp [hne, hne.symm]

theorem afterBrace?_skipGap (hl : Uncommented l) : afterBrace? (skipGap l) = afterBrace? l := by
  induction l with
  | nil => rfl
  | cons c l ih =>
    by_cases hc : isGap c = true
    · have hsuffix : Uncommented l := hl.mono (List.suffix_cons c l).isInfix
      rw [skipGap, List.dropWhile_cons_of_pos hc, afterBrace?_cons_gap hc hl]
      exact ih hsuffix
    · rw [skipGap, List.dropWhile_cons_of_neg hc]

/-- The lines from the heading's rest on have nothing but gaps up to the brace, and give the members of
the statements. -/
structure ReadsOpened (ss : List (List Char)) (l : Line) (ls : List Line) : Prop where
  first : ∀ c, (skipGap l).head? = some c → c = '\x7b'
  reads : ∀ h : Heading, afterBrace? h.trailer = afterBrace? l →
    ∃ rest, readMembers types h ls = (ss.filterMap (member? types), rest) ∧ Undeclared rest

theorem ReadsOpened.gap {c : Char} (hc : isGap c = true) (hl : Uncommented (c :: l))
    (h : ReadsOpened types ss l ls) : ReadsOpened types ss (c :: l) ls := by
  refine ⟨?_, ?_⟩
  · rw [skipGap, List.dropWhile_cons_of_pos hc]
    exact h.first
  · rw [afterBrace?_cons_gap hc hl]
    exact h.reads

theorem ReadsOpened.newline (h : ReadsOpened types ss l ls) :
    ReadsOpened types ss [] (l :: ls) := by
  refine ⟨fun c hc => absurd hc (by simp [skipGap]), fun heading htrailer => ?_⟩
  have hplain : isDeclaration l = false := by
    refine isDeclaration_of_skipGap fun s hs => ?_
    exact absurd (h.first 's' (by rw [hs]; rfl)) (by decide)
  have hnone : afterBrace? heading.trailer = none := htrailer
  obtain ⟨rest, hreads, hrest⟩ := h.reads ⟨[], none, l⟩ rfl
  refine ⟨rest, ?_, hrest⟩
  rw [← hreads, readMembers_eq, readMembers_eq, hnone, findOpening,
    if_neg (Bool.eq_false_iff.mp hplain)]
  cases afterBrace? l with
  | none => rfl
  | some text => rfl

theorem ReadsBody.opened (hl : Uncommented ('\x7b' :: l)) (h : ReadsBody types ss l ls) :
    ReadsOpened types ss ('\x7b' :: l) ls := by
  have hopens : afterBrace? ('\x7b' :: l) = some l := by
    rw [afterBrace?, splitComment_of_uncommented hl, if_pos List.mem_cons_self]
    rfl
  refine ⟨?_, fun heading htrailer => ?_⟩
  · rintro c ⟨⟩
    rfl
  · obtain ⟨rest, hreads, hrest⟩ := h.reads
    refine ⟨rest, ?_, hrest⟩
    rw [readMembers_eq, htrailer, hopens]
    exact hreads

theorem readsOpened_of_openedText (hs : ∀ s ∈ ss, Statement s) (h : OpenedText ss t)
    (ht : rows t = l :: ls) : ReadsOpened types ss l ls := by
  have huncommented := uncommented_of_openedText hs h
  induction h generalizing l ls with
  | @space sp ss t hsp h ih =>
    refine rows_space_induction hsp ?_ ?_ ?_ ht
    · exact fun k ks hk => ih hs hk (uncommented_of_openedText hs h)
    · exact fun c k hc hinfix ks hk => hk.gap types hc (huncommented.mono hinfix)
    · exact fun k ks hk => hk.newline
  | @brace ss t h =>
    obtain ⟨k, ks, hk⟩ := exists_rows t
    have hline : Uncommented l := huncommented.mono (infix_of_mem_rows (ht ▸ List.mem_cons_self))
    have hrows := (rows_append (a := ['\x7b']) (by decide) (by decide) hk).symm.trans ht
    obtain ⟨rfl, rfl⟩ := List.cons.inj hrows
    exact (readsBody_of_bodyText types hs h hk).opened types hline

/-! ## A struct -/

variable {name : List Char} {marker : Option (List Char)}

/-- The marker is found again, and of the gap in front of the brace nothing else is lost. -/
theorem splitMarker_of_markerText (hmarker : ∀ m, marker = some m → ¬ [')', '$'] <:+: m)
    (hcode : MarkerText marker code) (hl : Uncommented l) :
    ∃ trailer, splitMarker (skipGap (code ++ l)) = (marker, trailer) ∧
      (trailer = l ∨ trailer = skipGap l) := by
  cases hcode with
  | none =>
    have hskip : Uncommented (skipGap l) := hl.mono (List.dropWhile_suffix _).isInfix
    exact ⟨skipGap l, splitMarker_of_uncommented hskip, Or.inr rfl⟩
  | @some gap m hgap =>
    refine ⟨l, ?_, Or.inl rfl⟩
    have hsplit : gap ++ '/' :: '/' :: '$' :: '(' :: (m ++ [')', '$']) ++ l =
        gap ++ '/' :: '/' :: '$' :: '(' :: (m ++ ')' :: '$' :: l) := by simp
    rw [hsplit, skipGap_gap_append hgap, skipGap_of_head (by rintro c ⟨⟩; rfl), splitMarker]
    simp only [splitMarkerEnd?_append (hmarker m rfl)]

/-- A heading ends in front of a gap, a marker or a brace. -/
theorem ends_of_markerText (hcode : MarkerText marker code)
    (hl : ∀ c, (skipGap l).head? = some c → c = '\x7b') :
    ∀ c, (code ++ l).head? = some c → isWordChar c = false := by
  have hgapped : ∀ {gap r : List Char}, Gap gap → (∀ c, r.head? = some c → isWordChar c = false) →
      ∀ c, (gap ++ r).head? = some c → isWordChar c = false := by
    intro gap r hgap hr c hc
    cases gap with
    | nil => exact hr c hc
    | cons d gap =>
      obtain rfl : d = c := Option.some.inj hc
      rcases isGap_cases (hgap d List.mem_cons_self) with rfl | rfl
      · rfl
      · rfl
  cases hcode with
  | none =>
    obtain ⟨gap, hgap, hsplit⟩ := exists_gap l
    rw [List.nil_append, hsplit]
    refine hgapped hgap fun c hc => ?_
    rw [hl c hc]
    rfl
  | some m hgap =>
    rw [List.append_assoc]
    refine hgapped hgap ?_
    rintro c ⟨⟩
    rfl

/-- The first line declares a struct with the name and the marker, and has no comment. -/
theorem declaration?_heading {indent gap : List Char} (hname : Word name)
    (hmarker : ∀ m, marker = some m → ¬ [')', '$'] <:+: m) (hindent : Gap indent) (hgap : Gap gap)
    (hne : gap ≠ []) (hcode : MarkerText marker code) (hl : Uncommented l)
    (hfirst : ∀ c, (skipGap l).head? = some c → c = '\x7b') :
    ∃ h : Heading, declaration? (indent ++ ("struct".toList ++ (gap ++ (name ++ (code ++ l))))) = some h ∧
      h.name = name ∧ h.marker = marker ∧ h.comment = "" ∧ afterBrace? h.trailer = afterBrace? l := by
  obtain ⟨trailer, hsplit, htrailer⟩ := splitMarker_of_markerText hmarker hcode hl
  have hheading := heading?_append hindent hgap hne hname (ends_of_markerText hcode hfirst)
  rw [hsplit] at hheading
  have hcomment : splitComment trailer = (trailer, []) := by
    apply splitComment_of_uncommented
    rcases htrailer with rfl | rfl
    · exact hl
    · exact hl.mono (List.dropWhile_suffix _).isInfix
  have htrim : trimStart trailer = trimStart (skipGap l) := by
    rcases htrailer with rfl | rfl
    · obtain ⟨lead, hlead, hgapped⟩ := exists_gap trailer
      nth_rewrite 1 [hgapped]
      exact trimStart_append_blank (fun c hc => isBlank_of_isGap (hlead c hc)) _
    · rfl
  refine ⟨⟨name, marker, trailer⟩, ?_, rfl, rfl, ?_, ?_⟩
  · rw [declaration?, hheading, Option.filter_some, hcomment, htrim]
    cases hrest : skipGap l with
    | nil => rfl
    | cons c r =>
      have hbrace : c = '\x7b' := hfirst c (by rw [hrest]; rfl)
      rw [hbrace]
      rfl
  · rw [Heading.comment, hcomment]
    rfl
  · rcases htrailer with rfl | rfl
    · rfl
    · exact afterBrace?_skipGap hl

theorem unbroken_of_markerText (hmarker : ∀ m, marker = some m → '\n' ∉ m)
    (hcode : MarkerText marker code) : '\n' ∉ code := by
  cases hcode with
  | none => exact List.not_mem_nil
  | some m hgap =>
    have hgap : '\n' ∉ _ := fun hmem => absurd (hgap _ hmem) (by decide)
    simp [hgap, hmarker m rfl]

/-- The heading of a struct lies on one line, and does not end with a carriage return. -/
theorem unbroken_heading {indent gap : List Char} (hname : Word name)
    (hmarker : ∀ m, marker = some m → '\n' ∉ m) (hindent : Gap indent) (hgap : Gap gap)
    (hcode : MarkerText marker code) :
    '\n' ∉ indent ++ ("struct".toList ++ (gap ++ (name ++ code))) ∧
      (indent ++ ("struct".toList ++ (gap ++ (name ++ code)))).getLast? ≠ some '\r' := by
  have hnotgap : ∀ {g : List Char}, Gap g → '\n' ∉ g := fun hg hmem => absurd (hg _ hmem) (by decide)
  have hends : (name ++ code) ≠ [] := by simp [hname.nonempty]
  constructor
  · simp only [List.mem_append, not_or]
    exact ⟨hnotgap hindent, by decide, hnotgap hgap, hname.not_mem (by decide),
      unbroken_of_markerText hmarker hcode⟩
  · rw [List.getLast?_append_of_ne_nil _ (by simp), List.getLast?_append_of_ne_nil _ (by simp [hends]),
      List.getLast?_append_of_ne_nil _ hends]
    cases hcode with
    | none =>
      rw [List.append_nil]
      exact fun hlast => hname.not_mem (by decide) (List.mem_of_getLast? hlast)
    | @some gap' m _ =>
      have hend : name ++ (gap' ++ '/' :: '/' :: '$' :: '(' :: (m ++ [')', '$'])) =
          name ++ (gap' ++ '/' :: '/' :: '$' :: '(' :: (m ++ [')'])) ++ ['$'] := by simp
      rw [hend, List.getLast?_concat]
      decide

theorem spoken_dropEmptyEnd (rows : List Line) : spoken (dropEmptyEnd rows) = spoken rows := by
  fun_induction dropEmptyEnd rows with
  | case1 => rfl
  | case2 l h =>
    obtain rfl := List.isEmpty_iff.mp h
    rfl
  | case3 l h => rfl
  | case4 l k rows ih => rw [spoken, spoken, List.filter_cons, List.filter_cons, ← spoken, ← spoken, ih]

theorem readStructs_lines (s : List Char) : readStructs types (lines s) = readStructs types (rows s) := by
  rw [← readStructs_spoken, lines_eq_rows, spoken_dropEmptyEnd, readStructs_spoken]

theorem keepFirstHeader_singleton (s : Struct) : keepFirstHeader [s] = [s] := by
  rw [keepFirstHeader, keepFirstHeader]
  exact ite_self _

/-- A source that is a declaration and the lines of its body makes one struct. -/
theorem parse_declaration (options : Options) {text : String} {heading : Heading} {members : List Member}
    {rest : List Line} (hrows : rows text.toList = l :: ls) (hdeclares : declaration? l = some heading)
    (hreads : readMembers options.types heading ls = (members, rest)) (hrest : Undeclared rest) :
    Document.parse options text = .ok ⟨options.directives, [Struct.ofHeading heading members]⟩ := by
  have hdeclaration : isDeclaration l = true := by rw [isDeclaration, hdeclares]; rfl
  obtain ⟨c, hc, hcb⟩ := List.all_eq_false.mp (plain_of_isDeclaration hdeclaration).1
  have hblank : text.toList.all isBlank = false := by
    have hmem : l ∈ rows text.toList := hrows ▸ List.mem_cons_self
    exact List.all_eq_false.mpr ⟨c, (infix_of_mem_rows hmem).subset hc, hcb⟩
  have hdirectives : readDirectives options.directives (lines text.toList) =
      (options.directives, lines text.toList) := by
    rw [lines_eq_rows, hrows, dropEmptyEnd_cons (Or.inl (List.ne_nil_of_mem hc)),
      readDirectives_of_declaration _ hdeclaration]
  have hstructs : readStructs options.types (lines text.toList) =
      [Struct.ofHeading heading members] := by
    have hnone := readStructs_undeclared options.types hrest []
    rw [List.append_nil] at hnone
    rw [readStructs_lines, hrows, readStructs, hdeclares]
    simp only [hreads, hnone, readStructs]
  unfold Document.parse
  simp only [hblank, Bool.false_eq_true, if_false, hdirectives, hstructs, keepFirstHeader_singleton]

/-- A struct has the members of its statements, and its source may be broken into lines anywhere in
front of a brace or a statement. -/
theorem parse_structText (options : Options) {text : String} (hname : Word name)
    (hmarker : ∀ m, marker = some m → '\n' ∉ m ∧ ¬ [')', '$'] <:+: m)
    (hs : ∀ s ∈ ss, Statement s) (h : StructText name marker ss text.toList) :
    Document.parse options text = .ok
      { directives := options.directives
        structs :=
          [{ name := String.ofList name
             role := Role.ofMarker marker
             members := ss.filterMap (member? options.types)
             comment := "" }] } := by
  generalize htext : text.toList = chars at h
  obtain @⟨indent, gap, code, t, hindent, hgap, hne, hcode, ht⟩ := h
  obtain ⟨l, ls, hrows⟩ := exists_rows t
  have hl : Uncommented l :=
    (uncommented_of_openedText hs ht).mono (infix_of_mem_rows (hrows ▸ List.mem_cons_self))
  have hopened := readsOpened_of_openedText options.types hs ht hrows
  obtain ⟨heading, hdeclares, rfl, rfl, hcomment, hbrace⟩ :=
    declaration?_heading hname (fun m h => (hmarker m h).2) hindent hgap hne hcode hl hopened.first
  obtain ⟨rest, hreads, hrest⟩ := hopened.reads heading hbrace
  obtain ⟨hbreak, hlast⟩ := unbroken_heading hname (fun m h => (hmarker m h).1) hindent hgap hcode
  -- The first line is the heading and the first line of the text behind it.
  have hassoc : ∀ r, indent ++ ("struct".toList ++ (gap ++ (heading.name ++ (code ++ r)))) =
      indent ++ ("struct".toList ++ (gap ++ (heading.name ++ code))) ++ r := by
    intro r
    simp only [List.append_assoc]
  rw [hassoc] at htext hdeclares
  have hwhole := rows_append hbreak hlast hrows
  rw [← htext] at hwhole
  have hparse := parse_declaration options hwhole hdeclares hreads hrest
  rw [hparse, Struct.ofHeading, hcomment]

/-- A brace on a line of its own, two members on the line behind it, and a statement that is none. -/
theorem parse_structText_allman :
    let text := "struct T //$(0x10)$\n\t\x7bint a; struct U u;\r\n bad;\x7d\n"
    let name := "T".toList
    let marker := "0x10".toList
    let ss := ["int a;".toList, " struct U u;".toList, " bad;".toList]
    Word name ∧ (∀ m, some marker = some m → '\n' ∉ m ∧ ¬ [')', '$'] <:+: m) ∧
      (∀ s ∈ ss, Statement s) ∧ StructText name (some marker) ss text.toList ∧
      Document.parse {} text = .ok
        { directives := {}
          structs :=
            [{ name := String.ofList name
               role := Role.ofMarker (some marker)
               members := ss.filterMap (member? .standard)
               comment := "" }] } := by
  intro text name marker ss
  have hname : Word name := .of_all (by decide) (by decide)
  have hmarker : ∀ m, some marker = some m → '\n' ∉ m ∧ ¬ [')', '$'] <:+: m := by
    rintro m ⟨⟩
    decide
  have hs : ∀ s ∈ ss, Statement s := by
    intro s hmem
    simp only [ss, List.mem_cons, List.not_mem_nil, or_false] at hmem
    rcases hmem with rfl | rfl | rfl
    · exact ⟨by decide, by decide, by decide, by decide, "int a".toList, rfl, by decide⟩
    · exact ⟨by decide, by decide, by decide, by decide, " struct U u".toList, rfl, by decide⟩
    · exact ⟨by decide, by decide, by decide, by decide, " bad".toList, rfl, by decide⟩
  let body := "int a;".toList ++ (" struct U u;".toList ++ (['\r', '\n'] ++ (" bad;".toList ++
    '\x7d' :: [['\n']].flatten)))
  have hsp : ∀ sp ∈ [['\n'], ['\t'], ['\r', '\n']], sp ∈ spaces := by decide
  have hbody : BodyText ss body :=
    .statement _ (.statement _ (.space (hsp _ (by decide)) (.statement _ (.close (by decide)))))
  have hopened : OpenedText ss (['\n'] ++ (['\t'] ++ '\x7b' :: body)) :=
    .space (hsp _ (by decide)) (.space (hsp _ (by decide)) (.brace hbody))
  have hgap : Gap " ".toList := gap_space
  have hsource := @StructText.mk name _ ss [] _ _ _ (fun _ hc => absurd hc List.not_mem_nil) hgap
    (by decide) (.some marker hgap) hopened
  have htext : StructText name (some marker) ss text.toList := by
    convert hsource using 1
    decide +kernel
  exact ⟨hname, hmarker, hs, htext, parse_structText {} hname hmarker hs htext⟩

end Datagram.Idl
