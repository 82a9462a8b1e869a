import Datagram.Proofs.Idl.Comment
import Datagram.Proofs.Idl.Segment

/-! # Lines that say nothing

Behind the directives a line that is blank, or a comment from its beginning on, is passed over wherever
it stands: it declares no struct, opens and closes no body and has no member in it. So structs are read
from the other lines alone, and such lines may come and go. -/

namespace Datagram.Idl

open Datagram.Text

/-! ## One line -/

/-- A line that is blank, or trimmed begins with the slashes of a comment. -/
def isSilent (l : Line) : Bool := l.all isBlank || "//".toList.isPrefixOf (trim l)

variable {l : Line}

/-- In a silent line nothing but blanks stands in front of the comment. -/
theorem blank_code_of_isSilent (h : isSilent l = true) : ∀ c ∈ (splitComment l).1, isBlank c = true := by
  have hslash : ∀ {s : List Char}, (∀ c ∈ s, isBlank c = true) → '/' ∉ s :=
    fun hs hmem => absurd (hs _ hmem) (by decide)
  rcases (Bool.or_eq_true _ _).mp h with hblank | hcomment
  · have hblank : ∀ c ∈ l, isBlank c = true := List.all_eq_true.mp hblank
    have hsplit := splitComment_append (hslash hblank) []
    rw [List.append_nil, splitComment, List.append_nil] at hsplit
    rw [hsplit]
    exact hblank
  · obtain ⟨lead, trail, hl, hlead, _⟩ := exists_trim l
    obtain ⟨text, htext⟩ := List.isPrefixOf_iff_prefix.mp hcomment
    have hcode : (splitComment l).1 = lead := by
      rw [hl, ← htext, splitComment_append (hslash hlead)]
      exact List.append_nil lead
    rw [hcode]
    exact hlead

theorem isDeclaration_of_isSilent (h : isSilent l = true) : isDeclaration l = false := by
  refine isDeclaration_of_skipGap fun s hs => ?_
  obtain ⟨gap, hgap, hl⟩ := exists_gap l
  rw [hs] at hl
  -- The keyword would stand in front of the comment.
  have hslash : '/' ∉ gap ++ ['s'] := by
    intro hmem
    rcases List.mem_append.mp hmem with hmem | hmem
    · exact absurd (hgap _ hmem) (by decide)
    · exact absurd (List.mem_singleton.mp hmem) (by decide)
  have hcode : 's' ∈ (splitComment l).1 := by
    have hsplit : gap ++ 's' :: s = (gap ++ ['s']) ++ s := by simp
    rw [hl, hsplit, splitComment_append hslash]
    simp
  exact absurd (blank_code_of_isSilent h _ hcode) (by decide)

theorem afterBrace?_of_isSilent (h : isSilent l = true) : afterBrace? l = none :=
  if_neg fun hmem => absurd (blank_code_of_isSilent h _ hmem) (by decide)

theorem closes_of_isSilent (h : isSilent l = true) : closes l = false :=
  decide_eq_false fun hmem => absurd (blank_code_of_isSilent h _ hmem) (by decide)

theorem lineMembers_of_isSilent (types : TypeTable) (h : isSilent l = true) :
    lineMembers types l = [] := by
  have hcode : ';' ∉ (splitComment l).1.takeWhile (· ≠ '\x7d') := by
    intro hmem
    have hmem := (List.takeWhile_prefix _).subset hmem
    exact absurd (blank_code_of_isSilent h _ hmem) (by decide)
  have hnone : statements ((splitComment l).1.takeWhile (· ≠ '\x7d')) = [] := by
    rw [statements, List.splitOn_eq_singleton hcode]
    rfl
  unfold lineMembers
  simp only [hnone]
  rfl

/-! ## The other lines -/

/-- The lines that are not silent. -/
def spoken (ls : List Line) : List Line := ls.filter (!isSilent ·)

theorem spoken_cons_silent (h : isSilent l = true) (ls : List Line) : spoken (l :: ls) = spoken ls :=
  List.filter_cons_of_neg (by simp [h])

theorem spoken_cons (h : isSilent l = false) (ls : List Line) : spoken (l :: ls) = l :: spoken ls :=
  List.filter_cons_of_pos (by simp [h])

theorem spoken_append (ls ks : List Line) : spoken (ls ++ ks) = spoken ls ++ spoken ks :=
  List.filter_append ..

theorem findOpening_spoken (ls : List Line) :
    findOpening (spoken ls) = ((findOpening ls).1, spoken (findOpening ls).2) := by
  induction ls with
  | nil => rfl
  | cons l ls ih =>
    cases hs : isSilent l with
    | true =>
      rw [spoken_cons_silent hs, ih, findOpening, isDeclaration_of_isSilent hs, afterBrace?_of_isSilent hs]
      rfl
    | false =>
      rw [spoken_cons hs, findOpening, findOpening]
      split
      · rw [spoken_cons hs]
      · split
        · rfl
        · exact ih

theorem readBody_spoken (types : TypeTable) (ls : List Line) :
    readBody types (spoken ls) = ((readBody types ls).1, spoken (readBody types ls).2) := by
  induction ls with
  | nil => rfl
  | cons l ls ih =>
    cases hs : isSilent l with
    | true =>
      rw [spoken_cons_silent hs, ih, readBody, isDeclaration_of_isSilent hs, closes_of_isSilent hs,
        lineMembers_of_isSilent types hs]
      rfl
    | false =>
      rw [spoken_cons hs, readBody, readBody, ih]
      split
      · rw [spoken_cons hs]
      · split
        · rfl
        · rfl

theorem readOpened_spoken (types : TypeTable) (opening : Option Line) (ls : List Line) :
    readOpened types opening (spoken ls) =
      ((readOpened types opening ls).1, spoken (readOpened types opening ls).2) := by
  cases opening with
  | none => rfl
  | some text =>
    rw [readOpened, readOpened, readBody_spoken]
    split
    · rfl
    · rfl

theorem readMembers_spoken (types : TypeTable) (h : Heading) (ls : List Line) :
    readMembers types h (spoken ls) =
      ((readMembers types h ls).1, spoken (readMembers types h ls).2) := by
  rw [readMembers_eq, readMembers_eq]
  cases afterBrace? h.trailer with
  | some text => exact readOpened_spoken types _ ls
  | none =>
    dsimp only
    rw [findOpening_spoken]
    exact readOpened_spoken types _ _

/-- Structs are read from the lines that are not silent. -/
theorem readStructs_spoken (types : TypeTable) (ls : List Line) :
    readStructs types (spoken ls) = readStructs types ls := by
  fun_induction readStructs types ls with
  | case1 => exact readStructs.eq_1 types
  | case2 l ls hd ih =>
    cases hs : isSilent l with
    | true => rw [spoken_cons_silent hs, ih]
    | false => rw [spoken_cons hs, readStructs, hd, ih]
  | case3 l ls h hd body ih =>
    have hs : isSilent l = false := by
      rw [Bool.eq_false_iff]
      intro hs
      have hplain := isDeclaration_of_isSilent hs
      rw [isDeclaration, hd] at hplain
      cases hplain
    rw [spoken_cons hs, readStructs, hd]
    simp only [readMembers_spoken]
    exact congrArg _ ih

/-! ## Lines put into a text -/

/-- Lines, and the same lines with silent ones in front of them, between them and behind them. -/
inductive Padded : List Line → List Line → Prop where
  | nil : Padded [] []
  | line {ls ks : List Line} (l : Line) : Padded ls ks → Padded (l :: ls) (l :: ks)
  | silent {l : Line} {ls ks : List Line} : isSilent l = true → Padded ls ks → Padded ls (l :: ks)

variable {ls ks : List Line}

theorem Padded.spoken_eq (h : Padded ls ks) : spoken ks = spoken ls := by
  induction h with
  | nil => rfl
  | line l _ ih =>
    rw [spoken, spoken, List.filter_cons, List.filter_cons]
    exact congrArg (fun rest => if !isSilent l then l :: rest else rest) ih
  | silent hs _ ih => rw [spoken_cons_silent hs, ih]

/-- Up to a line that is neither blank nor a directive, the directives are those in front of it. -/
theorem readDirectives_append (hblank : l.all isBlank = false) (hdirective : directive? l = none)
    (d : Directives) (front : List Line) :
    ∃ d' rest, ∀ ls, readDirectives d (front ++ l :: ls) = (d', rest ++ l :: ls) := by
  induction front generalizing d with
  | nil =>
    refine ⟨d, [], fun ls => ?_⟩
    rw [List.nil_append, readDirectives, if_neg (by simp [hblank]), hdirective]
  | cons k front ih =>
    by_cases hk : k.all isBlank = true
    · obtain ⟨d', rest, hread⟩ := ih d
      refine ⟨d', rest, fun ls => ?_⟩
      rw [List.cons_append, readDirectives, if_pos hk, hread]
    · cases hd : directive? k with
      | none =>
        refine ⟨d, k :: front, fun ls => ?_⟩
        rw [List.cons_append, readDirectives, if_neg hk, hd]
      | some entry =>
        obtain ⟨d', rest, hread⟩ := ih (d.apply entry.1 entry.2)
        refine ⟨d', rest, fun ls => ?_⟩
        rw [List.cons_append, readDirectives, if_neg hk, hd]
        exact hread ls

/-- Silent lines that are put into a source anywhere behind its directives change nothing of what is read
from it. -/
theorem parse_padded (options : Options) {text padded : String} {front : List Line}
    (htext : lines text.toList = front ++ l :: ls) (hpadded : lines padded.toList = front ++ l :: ks)
    (hblank : l.all isBlank = false) (hdirective : directive? l = none) (h : Padded ls ks) :
    ∃ d, Document.parse options text = .ok d ∧ Document.parse options padded = .ok d := by
  obtain ⟨directives, rest, hread⟩ :=
    readDirectives_append hblank hdirective options.directives front
  have hparse : ∀ {t : String} {ls : List Line}, lines t.toList = front ++ l :: ls →
      Document.parse options t =
        .ok ⟨directives, keepFirstHeader (readStructs options.types (rest ++ l :: ls))⟩ := by
    intro t ls ht
    have htblank : t.toList.all isBlank = false := by
      obtain ⟨c, hc, hcb⟩ := List.all_eq_false.mp hblank
      have hmem : l ∈ lines t.toList := ht ▸ List.mem_append_right _ List.mem_cons_self
      exact List.all_eq_false.mpr ⟨c, subset_of_mem_lines hmem hc, hcb⟩
    unfold Document.parse
    simp only [htblank, Bool.false_eq_true, if_false, ht, hread]
  have hstructs : readStructs options.types (rest ++ l :: ls) =
      readStructs options.types (rest ++ l :: ks) := by
    have hspoken : ∀ ls, spoken (rest ++ l :: ls) = spoken (rest ++ [l]) ++ spoken ls := by
      intro ls
      rw [← spoken_append, List.append_assoc, List.singleton_append]
    rw [← readStructs_spoken, hspoken, ← h.spoken_eq, ← hspoken, readStructs_spoken]
  exact ⟨_, hparse htext, hstructs ▸ hparse hpadded⟩

/-- Silent lines between a declaration and its brace, in a body that is not closed, and at the end. -/
theorem parse_padded_unclosed :
    let text := "//+PACK_SIZE=2\n\nstruct A\n\x7b int a;\nint b;\nstruct B //$()$ \x7b int c; \x7d"
    let padded := "//+PACK_SIZE=2\n\nstruct A\n// \x7b int x;\n\x7b int a;\n \r\n\t//$(7)$ \x7d\nint b;\n//+PACK_SIZE=8\nstruct B //$()$ \x7b int c; \x7d\n//"
    let front := ["//+PACK_SIZE=2".toList, []]
    let l := "struct A".toList
    let opening := "\x7b int a;".toList
    let last := "struct B //$()$ \x7b int c; \x7d".toList
    let ls := [opening, "int b;".toList, last]
    let ks := ["// \x7b int x;".toList, opening, " ".toList, "\t//$(7)$ \x7d".toList, "int b;".toList,
      "//+PACK_SIZE=8".toList, last, "//".toList]
    lines text.toList = front ++ l :: ls ∧ lines padded.toList = front ++ l :: ks ∧
      l.all isBlank = false ∧ directive? l = none ∧ Padded ls ks ∧
      ∃ d, Document.parse {} text = .ok d ∧ Document.parse {} padded = .ok d := by
  intro text padded front l opening last ls ks
  have htext : lines text.toList = front ++ l :: ls := by decide +kernel
  have hpadded : lines padded.toList = front ++ l :: ks := by decide +kernel
  have hblank : l.all isBlank = false := by decide
  have hdirective : directive? l = none := by decide
  have hsilent : Padded ls ks := by
    refine .silent (by decide) (.line _ (.silent (by decide) (.silent (by decide) (.line _ ?_))))
    exact .silent (by decide) (.line _ (.silent (by decide) .nil))
  exact ⟨htext, hpadded, hblank, hdirective, hsilent,
    parse_padded {} htext hpadded hblank hdirective hsilent⟩

end Datagram.Idl
