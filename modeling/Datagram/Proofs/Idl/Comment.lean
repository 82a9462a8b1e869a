import Datagram.Proofs.Idl.Word
import Mathlib.Data.List.Infix

/-! # Comments of lines

A description is written behind a line with its words one space apart. Code has no slash in it, so
that the comment is found again, and what is read from it is the description, unless that has the
marker of a message number in it. -/

namespace Datagram.Idl

open Datagram.Text

/-- What is written of a description, from the slashes on. -/
def note (description : String) : List Char :=
  if collapse description.toList = [] then []
  else '/' :: '/' :: ' ' :: collapse description.toList

/-- What is read of a description. -/
def noteText (description : String) : String :=
  String.ofList (trim (dropMarkers (collapse description.toList)))

/-- What parts a description from the code. -/
def noteGap (description : String) : List Char := if note description = [] then [] else [' ']

theorem commentSuffix_toList (description : String) :
    (commentSuffix description).toList = noteGap description ++ note description := by
  by_cases h : collapse description.toList = []
  · simp [commentSuffix, noteGap, note, h]
  · simp [commentSuffix, noteGap, note, h]

theorem mem_noteGap {description : String} {c : Char} (h : c ∈ noteGap description) : c = ' ' := by
  unfold noteGap at h
  split at h
  · cases h
  · exact List.mem_singleton.mp h

/-! ## Where the code ends -/

/-- The code of a text and its comment, which begins with the first two slashes. -/
structure Commented (text code comment : List Char) : Prop where
  whole : text = code ++ comment
  slashes : comment = [] ∨ ['/', '/'] <+: comment
  first : ∀ before after, text = before ++ '/' :: '/' :: after → code.length ≤ before.length

theorem commented_splitComment (text : List Char) :
    Commented text (splitComment text).1 (splitComment text).2 := by
  fun_induction splitComment text with
  | case1 => exact ⟨rfl, Or.inl rfl, fun _ _ _ => Nat.zero_le _⟩
  | case2 s => exact ⟨rfl, Or.inr ⟨s, rfl⟩, fun _ _ _ => Nat.zero_le _⟩
  | case3 c s hslash code comment hsplit ih =>
    rw [hsplit] at ih
    refine ⟨congrArg _ ih.whole, ih.slashes, ?_⟩
    rintro before after h
    cases before with
    | nil =>
      obtain ⟨rfl, rfl⟩ := List.cons.inj h
      exact absurd rfl (hslash after rfl)
    | cons d before =>
      exact Nat.succ_le_succ (ih.first before after (List.cons.inj h).2)

theorem Commented.length_le {text code comment code' comment' : List Char}
    (h : Commented text code comment) (h' : Commented text code' comment') :
    code.length ≤ code'.length := by
  rcases h'.slashes with rfl | ⟨after, rfl⟩
  · have hwhole := congrArg List.length (h.whole.symm.trans h'.whole)
    rw [List.append_nil, List.length_append] at hwhole
    omega
  · exact h.first code' after h'.whole

theorem splitComment_eq_iff {text code comment : List Char} :
    splitComment text = (code, comment) ↔ Commented text code comment := by
  have hread := commented_splitComment text
  constructor
  · intro h
    rwa [h] at hread
  · intro h
    have hlength := Nat.le_antisymm (hread.length_le h) (h.length_le hread)
    have hparts := List.append_inj (hread.whole.symm.trans h.whole) hlength
    exact Prod.ext hparts.1 hparts.2

theorem splitComment_append {code : List Char} (h : '/' ∉ code) (s : List Char) :
    splitComment (code ++ s) = (code ++ (splitComment s).1, (splitComment s).2) := by
  induction code with
  | nil => rfl
  | cons c code ih =>
    obtain ⟨hc, hcode⟩ := not_or.mp (mt List.mem_cons.mpr h)
    rw [List.cons_append, splitComment, ih hcode]
    · rfl
    · rintro s rfl
      exact absurd rfl hc

theorem splitComment_note (description : String) :
    splitComment (note description) = ([], note description) := by
  unfold note
  split <;> rfl

theorem splitComment_code_note {code : List Char} (h : '/' ∉ code) (description : String) :
    splitComment (code ++ note description) = (code, note description) := by
  rw [splitComment_append h, splitComment_note, List.append_nil]

theorem splitComment_code_suffix {code : List Char} (h : '/' ∉ code) (description : String) :
    splitComment (code ++ (commentSuffix description).toList) =
      (code ++ noteGap description, note description) := by
  have hgap : '/' ∉ code ++ noteGap description := by
    intro hmem
    rcases List.mem_append.mp hmem with hc | hc
    · exact h hc
    · exact absurd (mem_noteGap hc) (by decide)
  rw [commentSuffix_toList, ← List.append_assoc, splitComment_code_note hgap]

theorem hasMarker_append {code : List Char} (h : '/' ∉ code) (s : List Char) :
    hasMarker (code ++ s) = hasMarker s := by
  induction code with
  | nil => rfl
  | cons c code ih =>
    obtain ⟨hc, hcode⟩ := not_or.mp (mt List.mem_cons.mpr h)
    rw [List.cons_append, hasMarker, ih hcode]
    rintro s rfl
    exact absurd rfl hc

/-! ## What a comment says -/

theorem commentText_note (description : String) :
    String.ofList (commentText (note description)) = noteText description := by
  rw [noteText, commentText]
  by_cases h : collapse description.toList = []
  · rw [note, if_pos h, h]
    rfl
  · rw [note, if_neg h]
    have hslash : isBlank '/' = false := by decide
    have hdrop : ∀ s, dropMarkers ('/' :: '/' :: ' ' :: s) = '/' :: '/' :: ' ' :: dropMarkers s :=
      fun s => rfl
    have htrim : ∀ s, trim ('/' :: '/' :: ' ' :: s) = '/' :: '/' :: trimEnd (' ' :: s) := by
      intro s
      rw [trim, trimStart_cons hslash, trimEnd_cons, if_neg (by simp [hslash]), trimEnd_cons,
        if_neg (by simp [hslash])]
    have hspace : ∀ s, (trimEnd (' ' :: s)).dropWhile (· = '/') = trimEnd (' ' :: s) := by
      intro s
      rw [trimEnd_cons]
      split
      · rfl
      · rfl
    rw [hdrop, htrim, List.dropWhile_cons_of_pos (by rfl), List.dropWhile_cons_of_pos (by rfl),
      hspace, trim_trimEnd, trim_cons_blank isBlank_space]

/-! ## Descriptions without a marker -/

/-- Nothing in a text is taken for the marker of a message number. -/
def Unmarked (s : List Char) : Prop := ¬ idMarker <:+: s

theorem Unmarked.of_cons {c : Char} {s : List Char} (h : Unmarked (c :: s)) : Unmarked s :=
  fun hs => h (hs.trans (List.suffix_cons c s).isInfix)

theorem dropMarkers_of_unmarked {s : List Char} (h : Unmarked s) : dropMarkers s = s := by
  induction s with
  | nil => rfl
  | cons c s ih =>
    rw [dropMarkers, ih h.of_cons]
    rintro t rfl rfl
    exact h (List.prefix_append idMarker t).isInfix

theorem solid_idMarker : Solid idMarker := solid_of_all (by decide)

theorem infix_collapse {s : List Char} : idMarker <:+: collapse s ↔ idMarker <:+: s :=
  infix_collapse_iff solid_idMarker (by decide)

theorem unmarked_collapse {s : List Char} (h : Unmarked s) : Unmarked (collapse s) := fun hs =>
  h (infix_collapse.mp hs)

theorem noteText_of_unmarked {description : String} (h : Unmarked description.toList) :
    (noteText description).toList = collapse description.toList := by
  rw [noteText, String.toList_ofList, dropMarkers_of_unmarked (unmarked_collapse h), trim_collapse]

theorem unmarked_noteText {description : String} (h : Unmarked description.toList) :
    Unmarked (noteText description).toList := by
  rw [noteText_of_unmarked h]
  exact unmarked_collapse h

theorem noteText_noteText {description : String} (h : Unmarked description.toList) :
    noteText (noteText description) = noteText description := by
  apply String.toList_inj.mp
  rw [noteText_of_unmarked (unmarked_noteText h), noteText_of_unmarked h, collapse_collapse]

/-! ## Markers -/

/-- A text, and what is left of it when its markers are taken out. -/
inductive Unmarks : List Char → List Char → Prop where
  | plain {s} : Unmarked s → Unmarks s s
  | marker {s t left} : Unmarked s → Unmarks t left → Unmarks (s ++ (idMarker ++ t)) (s ++ left)

theorem hasMarker_iff {s : List Char} : hasMarker s = true ↔ idMarker <:+: s := by
  fun_induction hasMarker s with
  | case1 => simp [idMarker]
  | case2 s => exact iff_of_true rfl (List.prefix_append idMarker s).isInfix
  | case3 c s hmarker ih =>
    rw [ih, List.infix_cons_iff]
    refine ⟨Or.inr, fun h => h.resolve_left ?_⟩
    rintro ⟨t, ht⟩
    obtain ⟨rfl, rfl⟩ := List.cons.inj ht
    exact hmarker t rfl rfl

/-- Two markers do not overlap. -/
theorem eq_of_overlap {x : List Char} (hs : x <:+ idMarker) (hp : x <+: idMarker) :
    x = [] ∨ x = idMarker := by
  have hall : ∀ x ∈ idMarker.tails, x <+: idMarker → x = [] ∨ x = idMarker := by decide
  exact hall x ((List.mem_tails x idMarker).mpr hs) hp

/-- In front of a text without markers no marker begins that ends behind it. -/
theorem not_prefix_of_unmarked {s : List Char} (hs : Unmarked s) (hne : s ≠ []) (t : List Char) :
    ¬ idMarker <+: s ++ (idMarker ++ t) := by
  rintro ⟨r, hr⟩
  rcases List.append_eq_append_iff.mp hr with ⟨x, hx, _⟩ | ⟨x, hx, hrest⟩
  · exact hs ⟨[], x, by rw [hx]; rfl⟩
  · -- The end of the marker is the beginning of the one behind the text.
    have hsuffix : x <:+ idMarker := ⟨s, hx.symm⟩
    have hfront : x <+: idMarker :=
      List.prefix_of_prefix_length_le ⟨r, hrest.symm⟩ (List.prefix_append idMarker t)
        hsuffix.length_le
    rcases eq_of_overlap hsuffix hfront with rfl | rfl
    · rw [List.append_nil] at hx
      exact hs (hx ▸ List.infix_rfl)
    · exact hne (List.self_eq_append_left.mp hx)

theorem dropMarkers_append_marker {s : List Char} (hs : Unmarked s) (t : List Char) :
    dropMarkers (s ++ (idMarker ++ t)) = s ++ dropMarkers t := by
  induction s with
  | nil => rfl
  | cons c s ih =>
    have hmarker := not_prefix_of_unmarked hs (List.cons_ne_nil c s) t
    rw [List.cons_append, dropMarkers, ih hs.of_cons]
    · rfl
    · rintro r rfl hr
      exact hmarker ⟨r, by rw [List.cons_append, hr]; rfl⟩

theorem unmarked_cons {c : Char} {s : List Char} (hs : Unmarked s) (hhead : ¬ idMarker <+: c :: s) :
    Unmarked (c :: s) := by
  intro h
  rcases List.infix_cons_iff.mp h with h | h
  · exact hhead h
  · exact hs h

theorem Unmarks.cons {c : Char} {s left : List Char} (h : Unmarks s left)
    (hhead : ¬ idMarker <+: c :: s) : Unmarks (c :: s) (c :: left) := by
  cases h with
  | plain hs => exact .plain (unmarked_cons hs hhead)
  | @marker s t left hs ht =>
    have hfront : ¬ idMarker <+: c :: s :=
      fun hfront => hhead (hfront.trans (List.prefix_append (c :: s) (idMarker ++ t)))
    exact .marker (unmarked_cons hs hfront) ht

theorem unmarks_dropMarkers (s : List Char) : Unmarks s (dropMarkers s) := by
  have hnone : Unmarked [] := by simp [Unmarked, idMarker]
  fun_induction dropMarkers s with
  | case1 => exact .plain hnone
  | case2 s ih => exact .marker hnone ih
  | case3 c s hmarker ih =>
    refine ih.cons ?_
    rintro ⟨t, ht⟩
    obtain ⟨rfl, rfl⟩ := List.cons.inj ht
    exact hmarker t rfl rfl

theorem dropMarkers_eq_iff {s left : List Char} : dropMarkers s = left ↔ Unmarks s left := by
  constructor
  · rintro rfl
    exact unmarks_dropMarkers s
  · intro h
    induction h with
    | plain hs => exact dropMarkers_of_unmarked hs
    | marker hs _ ih => rw [dropMarkers_append_marker hs, ih]

theorem Unmarks.length_le {s left : List Char} (h : Unmarks s left) : left.length ≤ s.length := by
  induction h with
  | plain => exact Nat.le_refl _
  | marker _ _ ih =>
    simp only [List.length_append]
    omega

theorem Unmarks.length_lt {s left : List Char} (h : Unmarks s left) (hm : idMarker <:+: s) :
    left.length < s.length := by
  cases h with
  | plain hs => exact absurd hm hs
  | marker _ ht =>
    have hle := ht.length_le
    have hpos : 0 < idMarker.length := by decide
    simp only [List.length_append]
    omega

/-- The marker of a line is in what trimming leaves of the line. -/
theorem infix_trim {line : Line} : idMarker <:+: trim line ↔ idMarker <:+: line := by
  have hhead : ∃ c t, idMarker = c :: t ∧ isBlank c = false := ⟨'/', _, rfl, by decide⟩
  have hlast : ∃ c t, idMarker.reverse = c :: t ∧ isBlank c = false := ⟨'$', _, rfl, by decide⟩
  calc idMarker <:+: trim line
      ↔ idMarker.reverse <:+: (trimStart line).reverse.dropWhile isBlank := by
        rw [← List.reverse_infix, trim, trimEnd, List.reverse_reverse]
    _ ↔ idMarker <:+: trimStart line := by rw [infix_dropWhile hlast, List.reverse_infix]
    _ ↔ idMarker <:+: line := infix_dropWhile hhead

theorem hasMarker_trim (line : Line) : hasMarker (trim line) = decide (idMarker <:+: line) := by
  rw [Bool.eq_iff_iff, hasMarker_iff, infix_trim, decide_eq_true_eq]

/-! ## Descriptions with a marker -/

/-- The slashes in front of a description are not the beginning of a marker in it. -/
theorem hasMarker_note (description : String) :
    hasMarker (note description) = true ↔ idMarker <:+: description.toList := by
  rw [← infix_collapse, ← hasMarker_iff, note]
  by_cases h : collapse description.toList = []
  · rw [if_pos h, h]
  · rw [if_neg h]
    rfl

/-- A description is read back, its words one space apart, just if it has no marker in it. -/
theorem noteText_eq_iff (description : String) :
    (noteText description).toList = collapse description.toList ↔ Unmarked description.toList := by
  refine ⟨fun h hm => ?_, noteText_of_unmarked⟩
  have hshort := (unmarks_dropMarkers _).length_lt (infix_collapse.mpr hm)
  rw [noteText, String.toList_ofList] at h
  have htrim := length_trim_le (dropMarkers (collapse description.toList))
  rw [h] at htrim
  omega

end Datagram.Idl
