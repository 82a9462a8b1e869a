import Datagram.Idl.Source
import Datagram.Proofs.Idl.Member

/-! # Structs read back

A struct is written as a blank line, its heading and its body between braces. Its heading declares
it, and its body is read up to the brace that closes it, so the structs of a document are read one
after the other. -/

namespace Datagram.Idl

open Datagram.Text

/-! ## Headings -/

/-- The number of a message behind the name of its struct. -/
def markerCode : Option Nat → List Char
  | none => []
  | some id => ' ' :: '/' :: '/' :: '$' :: '(' :: (decimal id ++ [')', '$'])

/-- The word in front of the name of a struct. -/
def keyword : List Char := ['s', 't', 'r', 'u', 'c', 't', ' ']

/-- The first line of a struct. -/
def headingLine (name : String) (id : Option Nat) (description : String) : List Char :=
  keyword ++ (name.toList ++ (markerCode id ++ (noteGap description ++ note description)))

/-- What the first line of a struct declares. -/
structure Heads (line : Line) (h : Heading) : Prop where
  unbroken : Unbroken line
  declares : declaration? line = some h
  unopened : afterBrace? h.trailer = none

/-- A marker ends where the text behind it has its first end of a marker. -/
theorem splitMarkerEnd?_append {s : List Char} (h : ¬ [')', '$'] <:+: s) (t : List Char) :
    splitMarkerEnd? (s ++ ')' :: '$' :: t) = some (s, t) := by
  induction s with
  | nil => rfl
  | cons c s ih =>
    have hs : ¬ [')', '$'] <:+: s := fun hend => h (hend.trans (List.suffix_cons c s).isInfix)
    rw [List.cons_append, splitMarkerEnd?, ih hs]
    · rfl
    · rintro u rfl hu
      cases s with
      | nil => cases hu
      | cons d s =>
        obtain ⟨rfl, _⟩ := List.cons.inj hu
        exact h (List.prefix_append [')', '$'] s).isInfix

/-- What is left of the heading behind its marker. -/
def headingTrailer (id : Option Nat) (description : String) : List Char :=
  match id with
  | none => note description
  | some _ => noteGap description ++ note description

theorem splitMarker_heading (id : Option Nat) (description : String) :
    splitMarker (skipGap (markerCode id ++ (noteGap description ++ note description))) =
      (id.map decimal, headingTrailer id description) := by
  cases id with
  | none =>
    have hskip : skipGap (noteGap description ++ note description) = note description := by
      unfold noteGap note
      split <;> simp_all [skipGap, isGap]
    rw [markerCode, List.nil_append, hskip]
    unfold note headingTrailer note
    split <;> rfl
  | some n =>
    have hcode : markerCode (some n) ++ (noteGap description ++ note description) =
        ' ' :: '/' :: '/' :: '$' :: '(' ::
          (decimal n ++ ')' :: '$' :: (noteGap description ++ note description)) := by
      simp [markerCode]
    rw [hcode, skipGap_space, skipGap_of_head (by rintro c ⟨⟩; rfl), splitMarker]
    have hend : ¬ [')', '$'] <:+: decimal n := fun hend =>
      (word_decimal n).not_mem (by decide) (hend.subset List.mem_cons_self)
    simp only [splitMarkerEnd?_append hend]
    rfl

theorem splitComment_trailer (id : Option Nat) (description : String) :
    (∀ c ∈ (splitComment (headingTrailer id description)).1, c = ' ') ∧
      (splitComment (headingTrailer id description)).2 = note description := by
  cases id with
  | none =>
    rw [headingTrailer, splitComment_note]
    exact ⟨by simp, rfl⟩
  | some n =>
    have hslash : '/' ∉ noteGap description := fun h => absurd (mem_noteGap h) (by decide)
    rw [headingTrailer, splitComment_code_note hslash]
    exact ⟨fun c hc => mem_noteGap hc, rfl⟩

/-- A heading is a keyword and a name, with a gap between them, and what stands behind the name. -/
theorem heading?_append {indent gap name : List Char} (hindent : Gap indent) (hgap : Gap gap)
    (hne : gap ≠ []) (hname : Word name) {s : List Char}
    (hend : ∀ c, s.head? = some c → isWordChar c = false) :
    heading? (indent ++ ("struct".toList ++ (gap ++ (name ++ s)))) =
      some ⟨name, (splitMarker (skipGap s)).1, (splitMarker (skipGap s)).2⟩ := by
  have hstripped : "struct".toList.isPrefixOf?
      (skipGap (indent ++ ("struct".toList ++ (gap ++ (name ++ s))))) = some (gap ++ (name ++ s)) := by
    rw [skipGap_gap_append hindent, word_struct.skipGap_append, List.isPrefixOf?_eq_some_iff_append_eq]
  have hfirst : (gap ++ (name ++ s)).head?.any isGap = true := by
    cases gap with
    | nil => exact absurd rfl hne
    | cons c gap => exact hgap c List.mem_cons_self
  have hnonempty : name.isEmpty = false := List.isEmpty_eq_false_iff.mpr hname.nonempty
  unfold heading?
  simp only [hstripped, hfirst, skipGap_gap_append hgap, hname.skipGap_append,
    takeWhile_exact hname.chars hend, dropWhile_exact hname.chars hend, hnonempty]
  rfl

theorem heading?_headingLine {name : String} (hn : Word name.toList) (id : Option Nat)
    (description : String) :
    heading? (headingLine name id description) =
      some ⟨name.toList, id.map decimal, headingTrailer id description⟩ := by
  have hend : ∀ c, (markerCode id ++ (noteGap description ++ note description)).head? = some c →
      isWordChar c = false := by
    intro c hc
    have hc : c ∈ [' ', '/'] := by
      cases id with
      | some n =>
        cases hc
        simp
      | none =>
        by_cases hd : collapse description.toList = []
        · simp [markerCode, noteGap, note, hd] at hc
        · simp [markerCode, noteGap, note, hd] at hc
          simp [← hc]
    rcases List.mem_pair.mp hc with rfl | rfl <;> rfl
  have hgap : Gap [] := fun _ hc => absurd hc List.not_mem_nil
  have hheading := heading?_append hgap gap_space (by simp) hn hend
  rw [splitMarker_heading] at hheading
  exact hheading

theorem comment_heading (name : List Char) (id : Option Nat) (description : String) :
    Heading.comment ⟨name, id.map decimal, headingTrailer id description⟩ =
      String.ofList (collapse description.toList) := by
  rw [Heading.comment, (splitComment_trailer id description).2]
  unfold note
  split
  · rename_i h
    rw [h]
    rfl
  · rw [List.drop_succ_cons, List.drop_succ_cons, List.drop_zero, trim_cons_blank isBlank_space,
      trim_collapse]

theorem unbroken_headingLine {name : String} (hn : Word name.toList) (id : Option Nat)
    (description : String) : Unbroken (headingLine name id description) := by
  have hbreak : ∀ c, c = '\n' ∨ c = '\r' → c ∉ headingLine name id description := by
    intro c hc hmem
    have hword : isWordChar c = false := by rcases hc with rfl | rfl <;> decide
    have hb : isBlank c = true := by rcases hc with rfl | rfl <;> decide
    have hs : c ≠ ' ' := by rcases hc with rfl | rfl <;> decide
    have hsign : c ∉ ['/', '$', '(', ')'] ∧ c ∉ keyword := by rcases hc with rfl | rfl <;> decide
    simp only [headingLine, List.mem_append] at hmem
    rcases hmem with h | h | h | h | h
    · exact hsign.2 h
    · exact hn.not_mem hword h
    · cases id with
      | none => cases h
      | some n =>
        have hdigits := (word_decimal n).not_mem hword
        simp [markerCode] at h hsign
        tauto
    · exact hs (mem_noteGap h)
    · exact not_mem_note hb hs h
  exact ⟨hbreak _ (Or.inl rfl), hbreak _ (Or.inr rfl)⟩

theorem heads_headingLine {name : String} (hn : Word name.toList) (id : Option Nat)
    (description : String) : Heads (headingLine name id description)
      ⟨name.toList, id.map decimal, headingTrailer id description⟩ where
  unbroken := unbroken_headingLine hn id description
  declares := by
    have hblank : trimStart (splitComment (headingTrailer id description)).1 = [] := by
      rw [← List.append_nil (splitComment _).1, trimStart_append_blank]
      · rfl
      · intro c hc
        rw [(splitComment_trailer id description).1 c hc]
        exact isBlank_space
    rw [declaration?, heading?_headingLine hn, Option.filter_some]
    simp [hblank]
  unopened := by
    rw [afterBrace?, if_neg]
    intro h
    exact absurd ((splitComment_trailer id description).1 _ h) (by decide)

/-! ## Bodies -/

theorem readBody_declares {lines : List Line} {members : List Member}
    (h : List.Forall₂ Declares lines members) (rest : List Line) :
    readBody .standard (lines ++ "\x7d;".toList :: rest) = (members, rest) := by
  induction h with
  | nil =>
    have hplain : isDeclaration "\x7d;".toList = false := by decide
    have hcloses : closes "\x7d;".toList = true := by decide
    have hmembers : lineMembers .standard "\x7d;".toList = [] := rfl
    rw [List.nil_append, readBody, if_neg (Bool.eq_false_iff.mp hplain), if_pos hcloses, hmembers]
  | cons hl _ ih =>
    rw [List.cons_append, readBody, if_neg (by simp [hl.plain]), if_neg (by simp [hl.opened]), ih,
      hl.members]
    rfl

/-- The lines of a struct behind its heading. -/
def bodyBlock (lines : List Line) : List Line := "\x7b".toList :: lines ++ ["\x7d;".toList]

theorem readMembers_bodyBlock {h : Heading} (ho : afterBrace? h.trailer = none)
    {lines : List Line} {members : List Member} (hl : List.Forall₂ Declares lines members)
    (rest : List Line) :
    readMembers .standard h (bodyBlock lines ++ rest) = (members, rest) := by
  have hplain : isDeclaration "\x7b".toList = false := by decide
  have hbrace : afterBrace? "\x7b".toList = some [] := by decide
  have hopening : findOpening (bodyBlock lines ++ rest) =
      (some [], lines ++ "\x7d;".toList :: rest) := by
    rw [bodyBlock, List.cons_append, List.cons_append, findOpening, if_neg (Bool.eq_false_iff.mp hplain),
      hbrace, List.append_assoc]
    rfl
  have hclosed : closes [] = false := by decide
  have hnone : lineMembers .standard [] = [] := rfl
  unfold readMembers
  simp only [ho, hopening, hclosed, Bool.false_eq_true, if_false, readBody_declares hl, hnone,
    List.nil_append]

/-- A struct's lines are read as the struct. -/
theorem readStructs_block {heading : Line} {h : Heading} (hh : Heads heading h)
    {lines : List Line} {members : List Member} (hl : List.Forall₂ Declares lines members)
    (rest : List Line) :
    readStructs .standard (heading :: (bodyBlock lines ++ rest)) =
      Struct.ofHeading h members :: readStructs .standard rest := by
  rw [readStructs, hh.declares]
  simp only [readMembers_bodyBlock hh.unopened hl]

theorem readStructs_blank (rest : List Line) :
    readStructs .standard ([] :: rest) = readStructs .standard rest := by
  have hnone : declaration? [] = none := rfl
  rw [readStructs, hnone]

/-- Lines that hold one struct, and nothing that the structs behind it depend on. -/
structure Writes (lines : List Line) (s : Struct) : Prop where
  unbroken : ∀ l ∈ lines, Unbroken l
  reads : ∀ rest, readStructs .standard (lines ++ rest) = s :: readStructs .standard rest

theorem readStructs_writes {α : Type} {f : α → List Line} {g : α → Struct} {xs : List α}
    (h : ∀ x ∈ xs, Writes (f x) (g x)) (rest : List Line) :
    readStructs .standard (xs.flatMap f ++ rest) = xs.map g ++ readStructs .standard rest := by
  induction xs with
  | nil => rfl
  | cons x xs ih =>
    rw [List.flatMap_cons, List.append_assoc, (h x List.mem_cons_self).reads,
      ih fun y hy => h y (List.mem_cons_of_mem _ hy)]
    rfl

end Datagram.Idl
