import Datagram.Proofs.Idl.Nested
import Datagram.Proofs.Text.Grammar

/-! # Members with the keyword `struct`

A member may be written with the keyword in front of its type. The keyword parts it from a declaration,
but its type is what the name behind the keyword stands for, and the table of type names is asked
before the structs are. -/

namespace Datagram.Idl

open Datagram.Text

/-! ## Lines with the keyword -/

/-- An array size between brackets, or no size. -/
inductive SizeCode : Option Nat → List Char → Prop where
  | none {gap} : Gap gap → SizeCode none gap
  | some {front inner ds outer back n} : Gap front → Gap inner → Digits 10 ds n → Gap outer →
      Gap back → n < UInt32.size →
      SizeCode (some n) (front ++ '[' :: (inner ++ (ds ++ (outer ++ ']' :: back))))

/-- The code `struct T name` or `struct T name[N]`. -/
inductive KeywordCode (type name : String) (size : Option Nat) : List Char → Prop where
  | intro {gap between tail} : Gap gap → gap ≠ [] → Word type.toList → Gap between →
      between ≠ [] → Word name.toList → SizeCode size tail →
      KeywordCode type name size
        ("struct".toList ++ (gap ++ (type.toList ++ (between ++ (name.toList ++ tail)))))

/-- Such code with a semicolon behind it, blanks around it and a comment or none. -/
inductive KeywordLine (type name : String) (size : Option Nat) : Line → Prop where
  | intro {lead code blanks comment} : (∀ c ∈ lead, isBlank c = true) →
      KeywordCode type name size code → (∀ c ∈ blanks, isBlank c = true) →
      comment = [] ∨ ['/', '/'] <+: comment →
      KeywordLine type name size (lead ++ (code ++ ';' :: (blanks ++ comment)))

variable {type name : String} {size : Option Nat} {code : List Char} {line : Line}

/-! ## Reading the code -/

theorem exists_arrayCode {tail : List Char} (h : SizeCode size tail) :
    ∃ front array back, tail = front ++ (array ++ back) ∧ Gap front ∧ ArrayCode size array ∧
      Gap back ∧ counted size = size := by
  cases h with
  | none hgap => exact ⟨tail, [], [], by simp, hgap, .none, List.forall_mem_nil _, rfl⟩
  | @some front inner ds outer back n hfront hinner hds houter hback hn =>
    refine ⟨front, _, back, ?_, hfront, .some hinner hds houter, hback, ?_⟩
    · simp
    · rw [counted, Option.filter_some, if_pos (decide_eq_true hn)]

/-- Code with the keyword is that of a member with three words. -/
theorem memberCode_of_keywordCode (h : KeywordCode type name size code) :
    MemberCode (["struct".toList, type.toList] ++ [name.toList]) size none (code ++ [';']) ∧
      counted size = size := by
  obtain @⟨gap, between, tail, hgap, hgapne, htype, hbetween, hbetweenne, hname, hsize⟩ := h
  obtain ⟨front, array, back, rfl, hfront, harray, hback, hcounted⟩ := exists_arrayCode hsize
  have hnone : Gap [] := List.forall_mem_nil _
  have hwords : WordsCode (["struct".toList, type.toList] ++ [name.toList])
      ("struct".toList ++ (gap ++ (type.toList ++ (between ++ name.toList)))) :=
    .more word_struct hgap hgapne (.more htype hbetween hbetweenne (.one hname))
  have hlength : 2 ≤ (["struct".toList, type.toList] ++ [name.toList]).length := Nat.le_succ 2
  have hcode := MemberCode.intro hnone hlength hwords hfront harray hback .none hnone hnone
  refine ⟨?_, hcounted⟩
  simpa using hcode

theorem typeText_keyword : typeText ["struct".toList, type.toList] = type.toList := by
  rw [typeText, if_pos rfl, List.intercalate_singleton]

/-! ## Reading the line -/

theorem head_keywordCode (h : KeywordCode type name size code) : ∃ t, code = 's' :: t := by
  cases h
  exact ⟨_, rfl⟩

theorem splitComment_comment {comment : List Char} (h : comment = [] ∨ ['/', '/'] <+: comment) :
    splitComment comment = ([], comment) := by
  rcases h with rfl | ⟨k, rfl⟩
  · rfl
  · rfl

/-- What trimming leaves behind the semicolon is again blanks and a comment or none. -/
theorem trimEnd_comment {blanks comment : List Char} (hb : ∀ c ∈ blanks, isBlank c = true)
    (hc : comment = [] ∨ ['/', '/'] <+: comment) :
    ∃ blanks' comment', trimEnd (blanks ++ comment) = blanks' ++ comment' ∧
      (∀ c ∈ blanks', isBlank c = true) ∧ (comment' = [] ∨ ['/', '/'] <+: comment') := by
  rcases hc with rfl | ⟨k, rfl⟩
  · rw [List.append_nil, trimEnd_of_blank hb]
    exact ⟨[], [], rfl, List.forall_mem_nil _, Or.inl rfl⟩
  · refine ⟨blanks, '/' :: '/' :: trimEnd k, ?_, hb, Or.inr ⟨trimEnd k, rfl⟩⟩
    have hslash : isBlank '/' = false := by decide
    have hfirst := trimEnd_append_cons hslash blanks ('/' :: k)
    have hsecond := trimEnd_append_cons hslash [] k
    rw [List.nil_append, List.nil_append] at hsecond
    rw [hsecond] at hfirst
    exact hfirst

theorem trim_keywordLine {lead code : List Char} (hlead : ∀ c ∈ lead, isBlank c = true)
    (hcode : ∃ t, code = 's' :: t) (rest : List Char) :
    trim (lead ++ (code ++ ';' :: rest)) = code ++ ';' :: trimEnd rest := by
  obtain ⟨t, rfl⟩ := hcode
  have hstart : trimStart ('s' :: t ++ ';' :: rest) = 's' :: t ++ ';' :: rest :=
    trimStart_cons (by decide) _
  rw [trim, trimStart_append_blank hlead, hstart, trimEnd_append_cons (by decide)]

/-- A line with the keyword is read as a member of the type behind the keyword. -/
theorem member?_of_keywordLine (types : TypeTable) (h : KeywordLine type name size line) :
    ∃ m, member? types line = some m ∧ m.name = name ∧ m.typeName = type ∧
      m.primitive = types.resolve type ∧ m.arraySize = size ∧ m.bitWidth = none := by
  obtain @⟨lead, code, blanks, comment, hlead, hcode, hblanks, hcomment⟩ := h
  have hhead := head_keywordCode hcode
  obtain ⟨hmember, hcounted⟩ := memberCode_of_keywordCode hcode
  obtain ⟨blanks', comment', htail, hblanks', hcomment'⟩ := trimEnd_comment hblanks hcomment
  have hslash : '/' ∉ code ++ ';' :: blanks' := by
    rw [List.append_cons, List.mem_append]
    rintro (hmem | hmem)
    · exact hmember.slash_not_mem hmem
    · exact absurd (hblanks' _ hmem) (by decide)
  have hcommented : Commented (trim (lead ++ (code ++ ';' :: (blanks ++ comment))))
      (code ++ ';' :: blanks') comment' := by
    have happend := splitComment_append hslash comment'
    rw [splitComment_comment hcomment', List.append_nil, List.append_assoc] at happend
    rw [trim_keywordLine hlead hhead, htail]
    exact splitComment_eq_iff.mp happend
  have htrim : trim (code ++ ';' :: blanks') = code ++ [';'] := by
    have hline := trim_keywordLine (List.forall_mem_nil _) hhead blanks'
    rwa [trimEnd_of_blank hblanks'] at hline
  have hprimitive : types.resolve type =
      types.resolve (String.ofList (typeText ["struct".toList, type.toList])) := by
    rw [typeText_keyword, String.ofList_toList]
  rw [← htrim] at hmember
  have hzero : (types.resolve type).isInteger = true → (none : Option Nat) ≠ some 0 := by
    intro _ hsome
    cases hsome
  have hline := member?_of_memberLine
    (.intro hcommented hmember hprimitive hzero (unmarks_dropMarkers _))
  have htext : String.ofList (typeText ["struct".toList, type.toList]) = type := by
    rw [typeText_keyword, String.ofList_toList]
  exact ⟨_, hline, String.ofList_toList, htext, rfl, hcounted, ite_self _⟩

/-! ## No declarations -/

theorem skipGap_blank_append {lead : List Char} (hlead : ∀ c ∈ lead, isBlank c = true)
    (t : List Char) : skipGap (lead ++ 's' :: t) = 's' :: t ∨
      ∃ c r, skipGap (lead ++ 's' :: t) = c :: r ∧ isBlank c = true := by
  induction lead with
  | nil => exact Or.inl rfl
  | cons c lead ih =>
    rw [List.forall_mem_cons] at hlead
    by_cases hc : isGap c = true
    · rw [List.cons_append, skipGap, List.dropWhile_cons_of_pos hc]
      exact ih hlead.2
    · rw [List.cons_append, skipGap, List.dropWhile_cons_of_neg hc]
      exact Or.inr ⟨c, _, rfl, hlead.1⟩

theorem heading?_of_blank {l : Line} {c : Char} {r : List Char} (h : skipGap l = c :: r)
    (hc : isBlank c = true) : heading? l = none := by
  have hprefix : "struct".toList.isPrefixOf? (c :: r) = none := by
    have hne : ('s' == c) = false := by
      rw [beq_eq_false_iff_ne]
      rintro rfl
      exact absurd hc (by decide)
    have htoList : "struct".toList = 's' :: "truct".toList := rfl
    rw [htoList, List.isPrefixOf?, hne]
    rfl
  rw [heading?, h, hprefix]

theorem heading?_of_words {l : Line} {gap type between name rest : List Char}
    (h : skipGap l = "struct".toList ++ (gap ++ (type ++ (between ++ (name ++ rest)))))
    (hgap : Gap gap) (hgapne : gap ≠ []) (htype : Word type) (hbetween : Gap between)
    (hbetweenne : between ≠ []) (hname : Word name) :
    heading? l = some ⟨type, none, name ++ rest⟩ := by
  have hprefix : "struct".toList.isPrefixOf?
      ("struct".toList ++ (gap ++ (type ++ (between ++ (name ++ rest))))) =
      some (gap ++ (type ++ (between ++ (name ++ rest)))) := rfl
  have hfirst : (gap ++ (type ++ (between ++ (name ++ rest)))).head?.any isGap = true := by
    obtain ⟨c, gap, rfl⟩ := List.exists_cons_of_ne_nil hgapne
    exact hgap c List.mem_cons_self
  have hskip : skipGap (gap ++ (type ++ (between ++ (name ++ rest)))) =
      type ++ (between ++ (name ++ rest)) := by
    rw [skipGap_gap_append hgap, htype.skipGap_append]
  have hstop : ∀ c, (between ++ (name ++ rest)).head? = some c → isWordChar c = false := by
    obtain ⟨d, between, rfl⟩ := List.exists_cons_of_ne_nil hbetweenne
    intro c hc
    cases hc
    rcases isGap_cases (hbetween d List.mem_cons_self) with rfl | rfl <;> rfl
  have hrest : skipGap (between ++ (name ++ rest)) = name ++ rest := by
    rw [skipGap_gap_append hbetween, hname.skipGap_append]
  have hmarker : splitMarker (name ++ rest) = (none, name ++ rest) := by
    obtain ⟨c, name, rfl⟩ := List.exists_cons_of_ne_nil hname.nonempty
    have hc := hname.chars c List.mem_cons_self
    unfold splitMarker
    split
    · rename_i heq
      rw [(List.cons.inj heq).1] at hc
      cases hc
    · rfl
  have hsome : type.isEmpty = false := List.isEmpty_eq_false_iff.mpr htype.nonempty
  rw [heading?, h, hprefix]
  simp only [hskip, takeWhile_exact htype.chars hstop, dropWhile_exact htype.chars hstop, hrest,
    hmarker, hfirst, hsome, Bool.not_false, Bool.and_self, if_true]

/-- Behind the name of a heading, a word is no body. -/
theorem not_declaration_of_word {l : Line} {h : Heading} (hh : heading? l = some h) {c : Char}
    {r : List Char} (htrailer : h.trailer = c :: r) (hc : isWordChar c = true) :
    isDeclaration l = false := by
  have hslash : '/' ∉ [c] := by
    rw [List.mem_singleton]
    rintro rfl
    cases hc
  have hcomment := splitComment_append hslash r
  have hcode : (splitComment (c :: r)).1 = c :: (splitComment r).1 := congrArg Prod.fst hcomment
  have hbrace : c ≠ '\x7b' := by
    rintro rfl
    cases hc
  rw [isDeclaration, declaration?, hh, Option.filter_some, htrailer, hcode,
    trimStart_cons (isBlank_of_isWordChar hc)]
  simp [hbrace]

/-- Such a line does not begin a struct. -/
theorem not_declaration_of_keywordLine (h : KeywordLine type name size line) :
    isDeclaration line = false := by
  obtain @⟨lead, code, blanks, comment, hlead, hcode, _, _⟩ := h
  obtain @⟨gap, between, tail, hgap, hgapne, htype, hbetween, hbetweenne, hname, _⟩ := hcode
  let rest := tail ++ ';' :: (blanks ++ comment)
  let words := gap ++ (type.toList ++ (between ++ (name.toList ++ rest)))
  have hline : lead ++ ("struct".toList ++ (gap ++ (type.toList ++ (between ++ (name.toList ++
      tail)))) ++ ';' :: (blanks ++ comment)) = lead ++ 's' :: ("truct".toList ++ words) := by
    simp [words, rest]
  rw [hline]
  rcases skipGap_blank_append hlead ("truct".toList ++ words) with hskip | ⟨c, r, hskip, hc⟩
  · have hheading := heading?_of_words hskip hgap hgapne htype hbetween hbetweenne hname
    obtain ⟨c, r, hcons⟩ := List.exists_cons_of_ne_nil hname.nonempty
    have htrailer : name.toList ++ rest = c :: (r ++ rest) := by
      rw [hcons]
      rfl
    exact not_declaration_of_word hheading htrailer (hname.chars c (hcons ▸ List.mem_cons_self))
  · rw [isDeclaration, declaration?, heading?_of_blank hskip hc]
    rfl

/-! ## The type of the member -/

/-- The fields that a member takes between those in front of it and those behind it. -/
structure Stands (d : Document) (u : Struct) (before after : List Member)
    (fields : List Datagram.Field) : Prop where
  split : d.structFields u = d.structFields { u with members := before } ++
    (fields ++ d.structFields { u with members := after })
  component : u.role = .user → d.struct? u.name = some u → ∀ source,
    ∃ cs k, (d.toCatalog source).components = some cs ∧ cs.schemas.get? u.name = some k ∧
      k.fields = d.structFields u

theorem stands_of_members {d : Document} {u : Struct} {before after : List Member} {m : Member}
    (hmembers : u.members = before ++ m :: after) (hm : m.bitWidth = none) :
    Stands d u before after
      (flatten (without d.structs u.name) d.directives.endian "" (.single m)) where
  split := structFields_append_single d u hmembers hm
  component := by
    intro hr hu source
    have hfound := get?_schemas_of_user hu hr
    exact ⟨d.components, componentOf d u, components_of_schema hfound source, hfound, rfl⟩

/-- A member with the keyword has the type that the name behind the keyword stands for without the
keyword. If the standard table does not have the name, this is the struct of the name: the member
stands for a copy of the struct's fields for each of its elements. If the table has it, the member is a
number, whether there is a struct of the name or not. -/
theorem keyword_member (h : KeywordLine type name size line) :
    isDeclaration line = false ∧ ∃ m, member? .standard line = some m ∧
      m.name = name ∧ m.typeName = type ∧ m.arraySize = size ∧ m.bitWidth = none ∧
      ∀ (d : Document) (t u : Struct) (before after : List Member), d.struct? type = some t →
        ¬ Relation.ReflTransGen (Refers d.structs) type u.name →
        u.members = before ++ m :: after → ∃ fields, Stands d u before after fields ∧
          (¬ TypeTable.Listed type → m.isStruct = true ∧ d.struct? m.typeName = some t ∧
            fields = d.copies t m ∧ wireSize fields = size.getD 1 * d.structSize type) ∧
          (∀ row ∈ TypeTable.standardNames, normalize type ∈ row.2 → m.primitive = row.1 ∧
            ∃ scalar, row.1.scalar? = some scalar ∧
              fields = scalarFields d.directives.endian "" scalar m ∧
              wireSize fields = size.getD 1 * scalar.bytes) := by
  refine ⟨not_declaration_of_keywordLine h, ?_⟩
  obtain ⟨m, hm, hname, htype, hprimitive, hsize, hwidth⟩ := member?_of_keywordLine .standard h
  refine ⟨m, hm, hname, htype, hsize, hwidth, ?_⟩
  intro d t u before after ht hpath hmembers
  have hcount : m.count = size.getD 1 := by rw [Member.count, hsize]
  refine ⟨_, stands_of_members hmembers hwidth, ?_, ?_⟩
  · intro hlisted
    have hstruct : m.isStruct = true := by
      rw [Member.isStruct, hprimitive, TypeTable.resolve_standard_of_not_listed hlisted]
      rfl
    have hfound : d.struct? m.typeName = some t := by rwa [htype]
    rw [← htype] at hpath
    have hself : d.struct? t.name = some t := by rwa [name_of_findStruct? ht]
    have hsizes := wireSize_copies hself m
    rw [hcount, name_of_findStruct? ht] at hsizes
    rw [flatten_eq_copies hstruct hfound hpath]
    exact ⟨hstruct, hfound, rfl, hsizes⟩
  · intro row hrow hlisted
    have hp : m.primitive = row.1 :=
      hprimitive.trans (TypeTable.resolve_standard_of_row hrow hlisted)
    obtain ⟨scalar, hscalar⟩ := TypeTable.scalar?_of_row hrow
    have hmember : m.primitive.scalar? = some scalar := by rw [hp, hscalar]
    rw [flatten_of_scalar hmember]
    refine ⟨hp, scalar, hscalar, rfl, ?_⟩
    rw [wireSize_scalarFields, hcount]

/-- An array of a struct with a bit field. -/
theorem keyword_member_array :
    let text := "struct P \x7b int a; byte b : 3; \x7d\nstruct B \x7b char c;\n\tstruct P w[2]; \x7d"
    let line := "\tstruct P w[2];".toList
    let p : Struct := ⟨"P", .user, [⟨"a", "int", .int true .w32, none, none, false, ""⟩,
      ⟨"b", "byte", .int false .w8, none, some 3, false, ""⟩], ""⟩
    let c : Member := ⟨"c", "char", .int true .w8, none, none, false, ""⟩
    let w : Member := ⟨"w", "P", .struct, some 2, none, false, ""⟩
    let b : Struct := ⟨"B", .user, [c, w], ""⟩
    let d : Document := ⟨{}, [p, b]⟩
    Document.parse {} text = .ok d ∧ KeywordLine "P" "w" (some 2) line ∧
      member? .standard line = some w ∧ ¬ TypeTable.Listed "P" ∧
      ¬ Relation.ReflTransGen (Refers d.structs) "P" "B" ∧
      (∃ fields, Stands d b [c] [] fields ∧ fields = d.copies p w ∧ wireSize fields = 10) ∧
      (d.copies p w).map Field.name = ["w[0].a", "w[0].b", "w[1].a", "w[1].b"] := by
  intro text line p c w b d
  have hblank : text.toList.all Text.isBlank = false := by decide +kernel
  have hdocument : documentOf {} text = d := by decide +kernel
  have hdigit : Digits 10 ['2'] 2 := .one ⟨by decide, Or.inl rfl⟩
  have hnone : Gap [] := List.forall_mem_nil _
  have hempty : ∀ c ∈ ([] : List Char), isBlank c = true := List.forall_mem_nil _
  have hcode : KeywordCode "P" "w" (some 2) "struct P w[2]".toList :=
    .intro gap_space (List.cons_ne_nil _ _) (Word.of_all (by decide) (by decide)) gap_space
      (List.cons_ne_nil _ _) (Word.of_all (by decide) (by decide))
      (.some hnone hnone hdigit hnone hnone (by decide))
  have htab : ∀ c ∈ ['\t'], isBlank c = true := List.forall_mem_singleton.mpr rfl
  have hline : KeywordLine "P" "w" (some 2) line := .intro htab hcode hempty (Or.inl rfl)
  have hmember : member? .standard line = some w := by decide +kernel
  have hlisted : ¬ TypeTable.Listed "P" := by
    have hall : ∀ row ∈ TypeTable.standardNames, normalize "P" ∉ row.2 := by decide +kernel
    rintro ⟨row, hrow, hname⟩
    exact hall row hrow hname
  have hfound : d.struct? "P" = some p := by decide
  have hpath : ¬ Relation.ReflTransGen (Refers d.structs) "P" "B" := by
    intro h
    have hplain : ∀ m ∈ p.members, m.isStruct = false := by decide
    exact absurd (eq_of_reaches_of_plain hfound hplain h) (by decide)
  obtain ⟨_, m, hm, _, _, _, _, hdocuments⟩ := keyword_member hline
  rw [hmember] at hm
  cases hm
  obtain ⟨fields, hstands, hcopies, _⟩ := hdocuments d p b [c] [] hfound hpath rfl
  obtain ⟨_, _, hfields, hsize⟩ := hcopies hlisted
  have hstruct : d.structSize "P" = 5 := by decide +kernel
  rw [hstruct] at hsize
  exact ⟨hdocument ▸ parse_eq_documentOf {} hblank, hline, hmember, hlisted, hpath,
    ⟨fields, hstands, hfields, hsize⟩, by decide +kernel⟩

/-- With the keyword in front of it, the name of a struct is still taken for that of a number. -/
theorem keyword_member_not_struct :
    let text := "struct Word \x7b int a; int b; \x7d\nstruct B \x7b struct Word w; \x7d"
    let word : Struct := ⟨"Word", .user, [⟨"a", "int", .int true .w32, none, none, false, ""⟩,
      ⟨"b", "int", .int true .w32, none, none, false, ""⟩], ""⟩
    let w : Member := ⟨"w", "Word", .int false .w16, none, none, false, ""⟩
    let b : Struct := ⟨"B", .user, [w], ""⟩
    let d : Document := ⟨{}, [word, b]⟩
    Document.parse {} text = .ok d ∧ d.structs.filter (·.name = "Word") = [word] ∧
      ¬ Relation.ReflTransGen (Refers d.structs) "Word" "B" ∧
      KeywordLine "Word" "w" none "struct Word w;".toList ∧
      member? .standard "struct Word w;".toList = some w ∧ w.isStruct = false ∧
      d.structFields b ≠ d.copies word w ∧ wireSize (d.structFields b) = 2 ∧
      d.structSize "Word" = 8 := by
  intro text word w b d
  have hblank : text.toList.all Text.isBlank = false := by decide +kernel
  have hdocument : documentOf {} text = d := by decide +kernel
  have hcode : KeywordCode "Word" "w" none "struct Word w".toList :=
    .intro gap_space (List.cons_ne_nil _ _) (Word.of_all (by decide) (by decide)) gap_space
      (List.cons_ne_nil _ _) (Word.of_all (by decide) (by decide)) (.none (List.forall_mem_nil _))
  have hempty : ∀ c ∈ ([] : List Char), isBlank c = true := List.forall_mem_nil _
  have hline : KeywordLine "Word" "w" none "struct Word w;".toList :=
    .intro hempty hcode hempty (Or.inl rfl)
  have hpath : ¬ Relation.ReflTransGen (Refers d.structs) "Word" "B" := by
    intro h
    have hfound : d.struct? "Word" = some word := by decide
    have hplain : ∀ m ∈ word.members, m.isStruct = false := by decide
    exact absurd (eq_of_reaches_of_plain hfound hplain h) (by decide)
  exact ⟨hdocument ▸ parse_eq_documentOf {} hblank, by decide, hpath, hline, by decide +kernel, rfl,
    by decide +kernel, by decide +kernel, by decide +kernel⟩

end Datagram.Idl
