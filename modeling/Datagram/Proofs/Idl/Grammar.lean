import Datagram.Proofs.Idl.Comment
import Datagram.Proofs.Idl.Declarator

/-! # The grammar of a member

The reader of lines accepts just the code of a member, whatever comment stands behind it, and the member
is what the words, the numbers and the comment say. -/

namespace Datagram.Idl

open Datagram.Text

variable {words : List (List Char)} {size width : Option Nat}

/-! ## The member of a line -/

/-- The words of a type with one space between them, without the keyword `struct` in front of others. -/
def typeText : List (List Char) → List Char
  | keyword :: w :: ws =>
    List.intercalate [' '] (if keyword = "struct".toList then w :: ws else keyword :: w :: ws)
  | ws => List.intercalate [' '] ws

/-- The member that a line with the grammar of one declares. -/
inductive MemberLine (types : TypeTable) (line : Line) : Member → Prop where
  | intro {code comment said words name size width primitive} :
      Commented (trim line) code comment →
      MemberCode (words ++ [name]) size width (trim code) →
      primitive = types.resolve (String.ofList (typeText words)) →
      (primitive.isInteger = true → width ≠ some 0) →
      Unmarks comment said →
      MemberLine types line
        { name := String.ofList name
          typeName := String.ofList (typeText words)
          primitive
          arraySize := counted size
          bitWidth :=
            if primitive.isInteger then (counted width).map (min · primitive.bits) else none
          isMessageId := decide (idMarker <:+: line)
          comment := String.ofList (trim ((trim said).dropWhile (· = '/'))) }

theorem intercalate_space_cons (keyword w : List Char) (ws : List (List Char)) :
    List.intercalate [' '] (keyword :: w :: ws) =
      keyword ++ ' ' :: List.intercalate [' '] (w :: ws) := by
  rw [List.intercalate_cons_cons, List.append_assoc, List.singleton_append]

theorem takeWhile_word {w : List Char} (h : Word w) (t : List Char) :
    (w ++ ' ' :: t).takeWhile (· ≠ ' ') = w := by
  apply takeWhile_exact
  · intro c hc
    rw [decide_eq_true_eq]
    rintro rfl
    exact h.not_mem rfl hc
  · rintro _ ⟨⟩
    rfl

/-- The keyword is taken off a text if it is the first word of several. -/
theorem keyword_of_isPrefixOf? {keyword t r : List Char} (hw : Word keyword)
    (h : "struct ".toList.isPrefixOf? (keyword ++ ' ' :: t) = some r) :
    keyword = "struct".toList := by
  have hwhole : "struct ".toList ++ r = keyword ++ ' ' :: t :=
    List.isPrefixOf?_eq_some_iff_append_eq.mp h
  have hsplit : "struct".toList ++ ' ' :: r = keyword ++ ' ' :: t := hwhole
  rw [← takeWhile_word hw t, ← hsplit, takeWhile_word word_struct]

theorem typeName_eq_typeText {d : Declarator} {name : List Char} (hd : d.words = words ++ [name])
    (hw : ∀ w ∈ words, Word w) : d.typeName = typeText words := by
  rw [Declarator.typeName, hd, List.dropLast_concat]
  match words, hw with
  | [], _ => rfl
  | [w], hw =>
    cases h : "struct ".toList.isPrefixOf? (List.intercalate [' '] [w]) with
    | none => rfl
    | some r =>
      have hsplit : "struct ".toList ++ r = w := by
        have hr := List.isPrefixOf?_eq_some_iff_append_eq.mp h
        rwa [List.intercalate_singleton] at hr
      have hspace : ' ' ∈ w := hsplit ▸ List.mem_append_left r (by decide)
      exact absurd hspace ((hw w List.mem_cons_self).not_mem rfl)
  | keyword :: w :: ws, hw =>
    rw [intercalate_space_cons, typeText]
    by_cases hkeyword : keyword = "struct".toList
    · subst hkeyword
      rw [if_pos rfl]
      rfl
    · rw [if_neg hkeyword, intercalate_space_cons]
      cases h : "struct ".toList.isPrefixOf?
          (keyword ++ ' ' :: List.intercalate [' '] (w :: ws)) with
      | none => rw [Option.getD_none]
      | some r => exact absurd (keyword_of_isPrefixOf? (hw keyword List.mem_cons_self) h) hkeyword

/-- No comment begins with a letter, a gap or a blank. -/
theorem isCommentOnly_cons {c : Char} (hslash : c ≠ '/') (hstar : c ≠ '*') (s : List Char) :
    isCommentOnly (c :: s) = false := by
  unfold isCommentOnly
  split
  · rename_i heq
    exact absurd (List.cons.inj heq).1 hslash
  · rename_i heq
    exact absurd (List.cons.inj heq).1 hslash
  · rename_i heq
    exact absurd (List.cons.inj heq).1 hstar
  · rfl

theorem isCommentOnly_of_memberCode {text code comment : List Char}
    (hc : Commented text code comment) (h : MemberCode words size width (trim code)) :
    isCommentOnly text = false := by
  obtain ⟨lead, trail, hcode, hlead, -⟩ := exists_trim code
  generalize trim code = middle at h hcode
  obtain @⟨gap, names, a, array, b, bits, d, e, hgap, -, hwords, -⟩ := h
  obtain ⟨w, t, rfl, hw⟩ := hwords.head
  have hblank : ∀ c ∈ lead ++ (gap ++ [w]), c ≠ '/' ∧ c ≠ '*' := by
    simp only [List.forall_mem_append, List.forall_mem_singleton]
    refine ⟨?_, ?_, ?_⟩
    · intro c hc
      have hb := hlead c hc
      constructor <;> rintro rfl <;> exact absurd hb (by decide)
    · intro c hc
      rcases isGap_cases (hgap c hc) with rfl | rfl <;> decide
    · constructor <;> rintro rfl <;> cases hw
  obtain ⟨c, r, hr⟩ : ∃ c r, lead ++ (gap ++ [w]) = c :: r :=
    List.exists_cons_of_ne_nil (by simp)
  have hhead := hblank c (by rw [hr]; exact List.mem_cons_self)
  obtain ⟨rest, hrest⟩ : ∃ rest, text = c :: rest := by
    refine ⟨r ++ (t ++ (a ++ (array ++ (b ++ (bits ++ (d ++ ';' :: e))))) ++ trail ++ comment), ?_⟩
    rw [hc.whole, hcode, ← List.cons_append, ← hr]
    simp
  rw [hrest]
  exact isCommentOnly_cons hhead.1 hhead.2 rest

theorem counted_eq_zero_iff {n : Option Nat} : counted n = some 0 ↔ n = some 0 := by
  rw [counted, Option.filter_eq_some_iff]
  exact and_iff_left (by decide)

/-- The width of a member, or none where it does not count. -/
theorem map_width (integer : Bool) (n : Option Nat) (bits : Nat) :
    (if integer = true then n else none).map (min · bits) =
      if integer = true then n.map (min · bits) else none := by
  cases integer <;> rfl

theorem member?_of_memberLine {types : TypeTable} {line : Line} {m : Member}
    (h : MemberLine types line m) : member? types line = some m := by
  obtain @⟨code, comment, said, words, name, size, width, primitive, hcommented, hcode, hprimitive,
    hzero, hsaid⟩ := h
  obtain ⟨d, hd, hwords, harray, hbits⟩ := declarator?_of_memberCode hcode
  have htype : d.typeName = typeText words :=
    typeName_eq_typeText hwords fun w hw => hcode.word w (List.mem_append_left _ hw)
  have hname : d.name = name := by rw [Declarator.name, hwords, List.getLastD_concat]
  have hwidth : ¬ (if primitive.isInteger = true then counted width else none) = some 0 := by
    intro heq
    split at heq
    · rename_i hinteger
      exact hzero hinteger (counted_eq_zero_iff.mp heq)
    · cases heq
  unfold member?
  simp only [isCommentOnly_of_memberCode hcommented hcode, splitComment_eq_iff.mpr hcommented, hd,
    Bool.false_eq_true, if_false, Option.bind_some, htype, hname, harray, hbits, hasMarker_trim,
    commentText, dropMarkers_eq_iff.mpr hsaid, ← hprimitive, if_neg hwidth, map_width]

theorem memberLine_of_member? {types : TypeTable} {line : Line} {m : Member}
    (h : member? types line = some m) : MemberLine types line m := by
  unfold member? at h
  dsimp only at h
  split at h
  · cases h
  · obtain ⟨d, hd, h⟩ := Option.bind_eq_some_iff.mp h
    obtain ⟨size, width, hcode, harray, hbits⟩ := memberCode_of_declarator? hd
    obtain ⟨words, name, hwords⟩ : ∃ words name, d.words = words ++ [name] :=
      ⟨_, _, (List.dropLast_append_getLast hcode.ne_nil).symm⟩
    rw [hwords] at hcode
    have htype : d.typeName = typeText words :=
      typeName_eq_typeText hwords fun w hw => hcode.word w (List.mem_append_left _ hw)
    have hname : d.name = name := by rw [Declarator.name, hwords, List.getLastD_concat]
    rw [htype, hname, harray, hbits, hasMarker_trim] at h
    generalize hprimitive : types.resolve (String.ofList (typeText words)) = primitive at h
    by_cases hwidth : (if primitive.isInteger = true then counted width else none) = some 0
    · rw [if_pos hwidth] at h
      cases h
    · rw [if_neg hwidth, map_width] at h
      rw [← Option.some.inj h]
      refine .intro (commented_splitComment _) hcode hprimitive.symm ?_ (unmarks_dropMarkers _)
      intro hinteger hzero
      apply hwidth
      rw [if_pos hinteger, hzero]
      rfl

theorem MemberLine.word_name {types : TypeTable} {line : Line} {m : Member}
    (h : MemberLine types line m) : Word m.name.toList := by
  cases h with
  | intro _ hcode _ _ _ =>
    rw [String.toList_ofList]
    exact hcode.word _ (List.mem_append_right _ (List.mem_singleton.mpr rfl))

/-- A line is read as a member just if it has the grammar of one, and the member is what it declares. -/
theorem member?_eq_some_iff (types : TypeTable) (line : Line) (m : Member) :
    member? types line = some m ↔ MemberLine types line m :=
  ⟨memberLine_of_member?, member?_of_memberLine⟩

end Datagram.Idl
