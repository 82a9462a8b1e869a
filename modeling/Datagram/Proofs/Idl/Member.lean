import Datagram.Proofs.Idl.Grammar
import Datagram.Proofs.Idl.Primitive
import Datagram.Proofs.Text.Lines

/-! # Member lines read back

A line of a struct's body has a type name, a name and, for a bit field, a width. It declares one
member with them, whatever its comment says. -/

namespace Datagram.Idl

open Datagram.Text

/-! ## The code of a line -/

/-- A bit width behind a name. -/
def widthCode : Option Nat → List Char
  | none => []
  | some w => ' ' :: ':' :: ' ' :: decimal w

/-- A member without its semicolon. -/
def memberCode (s : Scalar) (name : String) (width : Option Nat) : List Char :=
  (typeName (.scalar s)).toList ++ ' ' :: name.toList ++ widthCode width

/-- The member that a line declares. -/
def writtenMember (s : Scalar) (name : String) (width : Option Nat) (description : String) :
    Member :=
  { name
    typeName := typeName (.scalar s)
    primitive := primitiveOf s
    arraySize := none
    bitWidth := width
    isMessageId := hasMarker (note description)
    comment := noteText description }

/-- A bit width that a type has room for. -/
structure Fits (s : Scalar) (w : Nat) : Prop where
  integer : s.isInteger = true
  pos : 0 < w
  le : w ≤ s.bits

theorem fits_none (s : Scalar) : ∀ w, (none : Option Nat) = some w → Fits s w := by
  intro w h
  cases h

/-- The words of a type name. -/
def typeWords (s : Scalar) : List (List Char) := gapWords (typeName (.scalar s)).toList

theorem typeWords_spec (s : Scalar) :
    typeWords s ≠ [] ∧ (∀ w ∈ typeWords s, w ≠ [] ∧ w.all isWordChar = true) ∧
      List.intercalate [' '] (typeWords s) = (typeName (.scalar s)).toList ∧
      typeText (typeWords s) = (typeName (.scalar s)).toList := by
  cases s with
  | int signed w => cases signed <;> cases w <;> decide
  | float => decide
  | double => decide

theorem typeWords_ne_nil (s : Scalar) : typeWords s ≠ [] := (typeWords_spec s).1

theorem word_of_mem_typeWords {s : Scalar} {w : List Char} (h : w ∈ typeWords s) : Word w :=
  Word.of_all ((typeWords_spec s).2.1 w h).1 ((typeWords_spec s).2.1 w h).2

theorem chars_typeName (s : Scalar) :
    ∀ c ∈ (typeName (.scalar s)).toList, isWordChar c = true ∨ c = ' ' := by
  have hall : (typeName (.scalar s)).toList.all (fun c => isWordChar c || c = ' ') = true := by
    cases s with
    | int signed w => cases signed <;> cases w <;> decide
    | float => decide
    | double => decide
  intro c hc
  simpa using List.all_eq_true.mp hall c hc

theorem head_typeName (s : Scalar) :
    ∃ c t, (typeName (.scalar s)).toList = c :: t ∧ isWordChar c = true := by
  obtain ⟨w, ws, hws⟩ := List.exists_cons_of_ne_nil (typeWords_ne_nil s)
  have hw : Word w := word_of_mem_typeWords (by rw [hws]; exact List.mem_cons_self)
  obtain ⟨c, t, rfl⟩ := List.exists_cons_of_ne_nil hw.nonempty
  have hc := hw.chars c List.mem_cons_self
  rw [← (typeWords_spec s).2.2.1, hws]
  cases ws with
  | nil => exact ⟨c, t, by simp, hc⟩
  | cons v vs => exact ⟨c, _, by rw [List.intercalate_cons_cons]; rfl, hc⟩

variable {s : Scalar} {name : String} {width : Option Nat}

theorem chars_memberCode (hn : Word name.toList) {c : Char} (h : c ∈ memberCode s name width) :
    isWordChar c = true ∨ c = ' ' ∨ c = ':' := by
  rcases List.mem_append.mp h with h | h
  · rcases List.mem_append.mp h with h | h
    · exact (chars_typeName s c h).imp_right Or.inl
    · rcases List.mem_cons.mp h with rfl | h
      · exact Or.inr (Or.inl rfl)
      · exact Or.inl (hn.chars c h)
  · cases width with
    | none => cases h
    | some w =>
      simp only [widthCode, List.mem_cons] at h
      rcases h with rfl | rfl | rfl | h
      · exact Or.inr (Or.inl rfl)
      · exact Or.inr (Or.inr rfl)
      · exact Or.inr (Or.inl rfl)
      · exact Or.inl ((word_decimal w).chars c h)

theorem not_mem_memberCode (hn : Word name.toList) {c : Char} (hc : isWordChar c = false)
    (hs : c ≠ ' ') (hd : c ≠ ':') : c ∉ memberCode s name width := by
  intro h
  rcases chars_memberCode hn h with h | h | h
  · rw [hc] at h
    cases h
  · exact hs h
  · exact hd h

/-! ## The grammar of the code -/

theorem wordsCode_typeWords (s : Scalar) :
    WordsCode (typeWords s) (typeName (.scalar s)).toList := by
  rw [← (typeWords_spec s).2.2.1]
  exact wordsCode_intercalate (fun w hw => word_of_mem_typeWords hw) (typeWords_ne_nil s)

theorem typeText_typeWords (s : Scalar) :
    typeText (typeWords s) = (typeName (.scalar s)).toList := (typeWords_spec s).2.2.2

theorem memberCode_written (hn : Word name.toList) :
    MemberCode (typeWords s ++ [name.toList]) none width (memberCode s name width ++ [';']) := by
  have hwords : WordsCode (typeWords s ++ [name.toList])
      ((typeName (.scalar s)).toList ++ (' ' :: name.toList)) :=
    (wordsCode_typeWords s).append gap_space (List.cons_ne_nil _ _) (.one hn)
  have hlength : 2 ≤ (typeWords s ++ [name.toList]).length := by
    have := List.length_pos_iff.mpr (typeWords_ne_nil s)
    rw [List.length_append, List.length_singleton]
    omega
  have hnone : Gap [] := List.forall_mem_nil _
  cases width with
  | none =>
    have hcode := MemberCode.intro hnone hlength hwords hnone .none hnone .none hnone hnone
    simpa [memberCode, widthCode] using hcode
  | some w =>
    have hcode := MemberCode.intro hnone hlength hwords gap_space .none hnone
      (.some gap_space (digits_decimal w)) hnone hnone
    simpa [memberCode, widthCode] using hcode

/-! ## Reading the statement -/

theorem slash_not_mem_code (hn : Word name.toList) : '/' ∉ memberCode s name width ++ [';'] :=
  (memberCode_written hn).slash_not_mem

theorem head_memberCode (s : Scalar) (name : String) (width : Option Nat) :
    ∃ c t, memberCode s name width = c :: t ∧ isWordChar c = true := by
  obtain ⟨c, t, ht, hc⟩ := head_typeName s
  exact ⟨c, _, by rw [memberCode, ht]; rfl, hc⟩

theorem getLast?_code_note {code gap : List Char} {description : String} {c : Char}
    (hgap : note description = [] → gap = [])
    (h : (code ++ ';' :: (gap ++ note description)).getLast? = some c) : isBlank c = false := by
  by_cases hempty : collapse description.toList = []
  · have hnote : note description = [] := by rw [note, if_pos hempty]
    rw [hgap hnote, hnote, List.getLast?_append] at h
    cases h
    decide
  · rw [note, if_neg hempty] at h
    obtain ⟨d, t, hd⟩ := List.exists_cons_of_ne_nil hempty
    apply getLast?_collapse (s := description.toList)
    rw [hd] at h ⊢
    simpa [List.getLast?_append, List.getLast?_cons_cons, List.getLast?_cons] using h

theorem trimStart_memberCode (s : Scalar) (name : String) (width : Option Nat) (t : List Char) :
    trimStart (memberCode s name width ++ t) = memberCode s name width ++ t := by
  obtain ⟨c, r, hr, hc⟩ := head_memberCode s name width
  rw [hr, List.cons_append]
  exact trimStart_cons (isBlank_of_isWordChar hc) (r ++ t)

theorem trim_code_note {gap : List Char} {description : String}
    (hgap : note description = [] → gap = []) :
    trim (memberCode s name width ++ ';' :: (gap ++ note description)) =
      memberCode s name width ++ ';' :: (gap ++ note description) := by
  rw [trim, trimStart_memberCode]
  exact trimEnd_of_last fun c hc => getLast?_code_note hgap hc

theorem trim_code_gap {gap : List Char} (hgap : ∀ c ∈ gap, c = ' ') :
    trim (memberCode s name width ++ ';' :: gap) = memberCode s name width ++ [';'] := by
  have hblank : ∀ c ∈ gap, isBlank c = true := by
    intro c hc
    rw [hgap c hc]
    exact isBlank_space
  rw [trim, trimStart_memberCode, trimEnd_append_cons (by decide), trimEnd_of_blank hblank]

theorem counted_width (hw : ∀ w, width = some w → Fits s w) : counted width = width := by
  cases width with
  | none => rfl
  | some w =>
    have hle := (hw w rfl).le
    have hbits := Scalar.bits_le s
    rw [counted, Option.filter_some, if_pos]
    simp only [UInt32.size, decide_eq_true_eq]
    omega

/-- A member's code is read as the member, with or without a gap in front of its comment. -/
theorem member?_code_note (hn : Word name.toList) (hw : ∀ w, width = some w → Fits s w)
    (description : String) {blanks gap : List Char} (hb : ∀ c ∈ blanks, isBlank c = true)
    (hspace : ∀ c ∈ gap, c = ' ') (hgap : note description = [] → gap = []) :
    member? .standard
        (blanks ++ (memberCode s name width ++ ';' :: (gap ++ note description))) =
      some (writtenMember s name width description) := by
  have htext : trim (blanks ++ (memberCode s name width ++ ';' :: (gap ++ note description))) =
      memberCode s name width ++ ';' :: (gap ++ note description) := by
    rw [trim, trimStart_append_blank hb, ← trim, trim_code_note hgap]
  have hslash : '/' ∉ memberCode s name width ++ ';' :: gap := by
    rw [List.append_cons]
    intro h
    rcases List.mem_append.mp h with h | h
    · exact slash_not_mem_code hn h
    · exact absurd (hspace '/' h) (by decide)
  have hparts : memberCode s name width ++ ';' :: (gap ++ note description) =
      (memberCode s name width ++ ';' :: gap) ++ note description := by simp
  have hcommented : Commented
      (trim (blanks ++ (memberCode s name width ++ ';' :: (gap ++ note description))))
      (memberCode s name width ++ ';' :: gap) (note description) := by
    rw [htext, ← splitComment_eq_iff, hparts]
    exact splitComment_code_note hslash description
  have hmarker : decide (idMarker <:+:
      blanks ++ (memberCode s name width ++ ';' :: (gap ++ note description))) =
      hasMarker (note description) := by
    rw [← hasMarker_trim, htext, hparts]
    exact hasMarker_append hslash (note description)
  have hprimitive : primitiveOf s =
      TypeTable.standard.resolve (String.ofList (typeText (typeWords s))) := by
    rw [typeText_typeWords, String.ofList_toList, resolve_typeName]
  have hzero : (primitiveOf s).isInteger = true → width ≠ some 0 := by
    rintro - rfl
    exact absurd (hw 0 rfl).pos (by decide)
  have hline := member?_of_memberLine (.intro hcommented
    (trim_code_gap hspace ▸ memberCode_written hn) hprimitive hzero (unmarks_dropMarkers _))
  have hwidth : (if (primitiveOf s).isInteger = true then
      (counted width).map (min · (primitiveOf s).bits) else none) = width := by
    rw [counted_width hw, isInteger_primitiveOf, bits_primitiveOf]
    cases width with
    | none => simp
    | some w => simp [(hw w rfl).integer, Nat.min_eq_left (hw w rfl).le]
  rw [hline, hmarker, hwidth, typeText_typeWords, String.ofList_toList, String.ofList_toList,
    ← commentText, commentText_note]
  rfl

/-! ## Reading the line -/

/-- A line that declares one member and leaves the body open. -/
structure Declares (line : Line) (m : Member) : Prop where
  unbroken : Unbroken line
  plain : isDeclaration line = false
  opened : closes line = false
  members : lineMembers .standard line = [m]

/-- The spaces in front of a member. -/
def indent : List Char := List.replicate 4 ' '

theorem mem_indent {c : Char} (h : c ∈ indent) : c = ' ' := List.eq_of_mem_replicate h

/-- A member on a line of its own. -/
def memberLine (s : Scalar) (name : String) (width : Option Nat) (description : String) :
    String :=
  String.ofList (indent ++ memberCode s name width ++ [';']) ++ commentSuffix description

theorem memberLine_toList (s : Scalar) (name : String) (width : Option Nat) (description : String) :
    (memberLine s name width description).toList =
      indent ++ (memberCode s name width ++ ';' :: (noteGap description ++ note description)) := by
  simp [memberLine, commentSuffix_toList]

theorem isBlank_of_mem_indent {c : Char} (h : c ∈ indent) : isBlank c = true := by
  rw [mem_indent h]
  exact isBlank_space

theorem member?_memberLine (hn : Word name.toList) (hw : ∀ w, width = some w → Fits s w)
    (description : String) : member? .standard (memberLine s name width description).toList =
      some (writtenMember s name width description) := by
  rw [memberLine_toList]
  apply member?_code_note hn hw description (fun _ => isBlank_of_mem_indent) (fun _ => mem_noteGap)
  intro hnote
  rw [noteGap, if_pos hnote]

theorem chars_memberLine (hn : Word name.toList) (description : String) {c : Char}
    (h : c ∈ (memberLine s name width description).toList) :
    isWordChar c = true ∨ c = ' ' ∨ c = ':' ∨ c = ';' ∨ c ∈ note description := by
  simp only [memberLine, commentSuffix_toList, String.toList_append, String.toList_ofList,
    List.mem_append, List.mem_singleton] at h
  rcases h with ((h | h) | h) | (h | h)
  · exact Or.inr (Or.inl (mem_indent h))
  · rcases chars_memberCode hn h with h | h | h
    · exact Or.inl h
    · exact Or.inr (Or.inl h)
    · exact Or.inr (Or.inr (Or.inl h))
  · exact Or.inr (Or.inr (Or.inr (Or.inl h)))
  · exact Or.inr (Or.inl (mem_noteGap h))
  · exact Or.inr (Or.inr (Or.inr (Or.inr h)))

theorem not_mem_note {description : String} {c : Char} (hb : isBlank c = true) (hs : c ≠ ' ') :
    c ∉ note description := by
  intro h
  by_cases hempty : collapse description.toList = []
  · rw [note, if_pos hempty] at h
    cases h
  · rw [note, if_neg hempty] at h
    simp only [List.mem_cons] at h
    rcases h with rfl | rfl | rfl | h
    · exact absurd hb (by decide)
    · exact absurd hb (by decide)
    · exact hs rfl
    · exact hs (eq_space_of_mem_collapse h hb)

theorem unbroken_memberLine (hn : Word name.toList) (description : String) :
    Unbroken (memberLine s name width description).toList := by
  have hbreak : ∀ c, c = '\n' ∨ c = '\r' → c ∉ (memberLine s name width description).toList := by
    intro c hc hmem
    have hb : isBlank c = true := by rcases hc with rfl | rfl <;> decide
    have hs : c ≠ ' ' ∧ c ≠ ':' ∧ c ≠ ';' := by rcases hc with rfl | rfl <;> decide
    rcases chars_memberLine hn description hmem with h | h | h | h | h
    · rw [isBlank_of_isWordChar h] at hb
      cases hb
    · exact hs.1 h
    · exact hs.2.1 h
    · exact hs.2.2 h
    · exact not_mem_note hb hs.1 h
  exact ⟨hbreak _ (Or.inl rfl), hbreak _ (Or.inr rfl)⟩

theorem isDeclaration_memberLine (s : Scalar) (name : String) (width : Option Nat)
    (description : String) :
    isDeclaration (memberLine s name width description).toList = false := by
  have hhead : ∀ t, "struct".toList.isPrefixOf? ((typeName (.scalar s)).toList ++ t) = none := by
    intro t
    cases s with
    | int signed w => cases signed <;> cases w <;> rfl
    | float => rfl
    | double => rfl
  have hline : (memberLine s name width description).toList = indent ++
      ((typeName (.scalar s)).toList ++ (' ' :: name.toList ++ widthCode width ++ [';'] ++
        (commentSuffix description).toList)) := by
    simp [memberLine, memberCode]
  have hskip : skipGap (memberLine s name width description).toList =
      (typeName (.scalar s)).toList ++ (' ' :: name.toList ++ widthCode width ++ [';'] ++
        (commentSuffix description).toList) := by
    have hgap : ∀ c ∈ indent, isGap c = true := by
      intro c hc
      rw [mem_indent hc]
      rfl
    obtain ⟨c, t, ht, hc⟩ := head_typeName s
    rw [hline, skipGap, List.dropWhile_append_of_pos hgap, ht, List.cons_append,
      List.dropWhile_cons_of_neg (by simp [isGap_of_isWordChar hc])]
  rw [isDeclaration, declaration?, heading?, hskip, hhead]
  rfl

theorem splitComment_memberLine (hn : Word name.toList) (description : String) :
    splitComment (memberLine s name width description).toList =
      (indent ++ memberCode s name width ++ ';' :: noteGap description,
        note description) := by
  have hslash : '/' ∉ indent ++ memberCode s name width ++ [';'] := by
    rw [List.append_assoc]
    intro h
    rcases List.mem_append.mp h with h | h
    · exact absurd (mem_indent h) (by decide)
    · exact slash_not_mem_code hn h
  have h := splitComment_code_suffix hslash description
  rw [memberLine, String.toList_append, String.toList_ofList, h]
  simp

theorem closes_memberLine (hn : Word name.toList) (description : String) :
    closes (memberLine s name width description).toList = false := by
  rw [closes, splitComment_memberLine hn, decide_eq_false_iff_not]
  intro h
  simp only [List.mem_append, List.mem_cons] at h
  rcases h with (h | h) | (h | h)
  · exact absurd (mem_indent h) (by decide)
  · exact not_mem_memberCode hn (by decide) (by decide) (by decide) h
  · exact absurd h (by decide)
  · exact absurd (mem_noteGap h) (by decide)

theorem statements_memberCode (hn : Word name.toList) (description : String) :
    statements (indent ++ memberCode s name width ++ ';' :: noteGap description) =
      [indent ++ memberCode s name width ++ [';']] := by
  have hcode : ';' ∉ indent ++ memberCode s name width := by
    intro h
    rcases List.mem_append.mp h with h | h
    · exact absurd (mem_indent h) (by decide)
    · exact not_mem_memberCode hn (by decide) (by decide) (by decide) h
  have hgap : ';' ∉ noteGap description := fun h => absurd (mem_noteGap h) (by decide)
  rw [statements, List.splitOn_append_cons_self_of_not_mem hcode, List.splitOn_eq_singleton hgap]
  rfl

/-- A member's line is read as the member. -/
theorem declares_memberLine (hn : Word name.toList) (hw : ∀ w, width = some w → Fits s w)
    (description : String) : Declares (memberLine s name width description).toList
      (writtenMember s name width description) where
  unbroken := unbroken_memberLine hn description
  plain := isDeclaration_memberLine s name width description
  opened := closes_memberLine hn description
  members := by
    have hclose : closes (memberLine s name width description).toList = false :=
      closes_memberLine hn description
    have htake : (indent ++ memberCode s name width ++ ';' :: noteGap description).takeWhile
        (· ≠ '\x7d') = indent ++ memberCode s name width ++ ';' :: noteGap description := by
      rw [closes, splitComment_memberLine hn, decide_eq_false_iff_not] at hclose
      have hopen : ∀ c ∈ indent ++ memberCode s name width ++ ';' :: noteGap description,
          decide (c ≠ '\x7d') = true := by
        intro c hc
        rw [decide_eq_true_eq]
        rintro rfl
        exact hclose hc
      simpa using takeWhile_exact (t := []) hopen (by simp)
    simp only [lineMembers, hclose, splitComment_memberLine hn, Bool.false_eq_true, if_false, htake,
      statements_memberCode hn, attachComment]
    have hmember := member?_code_note hn hw description
      (fun _ => isBlank_of_mem_indent) (List.forall_mem_nil _) fun _ => rfl
    have hstatement : indent ++ memberCode s name width ++ [';'] ++ note description =
        indent ++ (memberCode s name width ++ ';' :: ([] ++ note description)) := by
      simp
    rw [hstatement, List.filterMap_cons_some hmember]
    rfl

end Datagram.Idl
