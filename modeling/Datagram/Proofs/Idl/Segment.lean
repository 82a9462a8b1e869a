import Datagram.Idl.Source
import Datagram.Proofs.Text.Blank
import Datagram.Proofs.Text.Lines
import Mathlib.Data.List.Forall2

/-! # Declarations cut a source into segments

A struct depends on the lines from its declaration up to the next one and on nothing else, however
its body is written: what reads a body stops in front of a declaration, and leaves the lines behind
it as they are. So a source falls into segments, and each of them is the source of its struct. -/

namespace Datagram.Idl

open Datagram.Text

/-! ## Segments of a list -/

section Segments

variable {α β : Type} (starts : α → Bool)

/-- From each element that starts one up to the next. -/
def segments : List α → List (List α)
  | [] => []
  | x :: xs =>
    if starts x then (x :: xs.takeWhile (!starts ·)) :: segments xs else segments xs

theorem segments_append_plain {xs : List α} (h : ∀ x ∈ xs, starts x = false) (ys : List α) :
    segments starts (xs ++ ys) = segments starts ys := by
  induction xs with
  | nil => rfl
  | cons x xs ih =>
    rw [List.cons_append, segments, if_neg (by simp [h x List.mem_cons_self]),
      ih fun y hy => h y (List.mem_cons_of_mem _ hy)]

/-- No element is lost behind the first that starts a segment. -/
theorem takeWhile_append_segments (xs : List α) :
    xs.takeWhile (!starts ·) ++ (segments starts xs).flatten = xs := by
  induction xs with
  | nil => rfl
  | cons x xs ih =>
    rw [segments]
    by_cases h : starts x = true
    · simp [h, ih]
    · simp [h, ih]

theorem mem_segments {xs seg : List α} (h : seg ∈ segments starts xs) :
    seg <:+: xs ∧ ∃ x rest, seg = x :: rest ∧ starts x = true ∧ ∀ y ∈ rest, starts y = false := by
  induction xs with
  | nil => cases h
  | cons x xs ih =>
    rw [segments] at h
    by_cases hx : starts x = true
    · rw [if_pos hx, List.mem_cons] at h
      rcases h with rfl | h
      · refine ⟨?_, x, _, rfl, hx, ?_⟩
        · exact (List.cons_prefix_cons.mpr ⟨rfl, List.takeWhile_prefix _⟩).isInfix
        · intro y hy
          simpa using List.mem_takeWhile_imp hy
      · exact ⟨(ih h).1.trans (List.suffix_cons x xs).isInfix, (ih h).2⟩
    · rw [if_neg hx] at h
      exact ⟨(ih h).1.trans (List.suffix_cons x xs).isInfix, (ih h).2⟩

theorem segments_map (f : β → α) (xs : List β) :
    segments starts (xs.map f) = (segments (starts ∘ f) xs).map (List.map f) := by
  induction xs with
  | nil => rfl
  | cons x xs ih =>
    rw [List.map_cons, segments, segments, ih, List.takeWhile_map]
    by_cases h : starts (f x) = true
    · simp [h, Function.comp_def]
    · simp [h]

theorem forall₂_filterMap {f : α → Option β} {P : α → β → Prop} {xs : List α}
    (h : ∀ x ∈ xs, ∃ y, f x = some y ∧ P x y) : List.Forall₂ P xs (xs.filterMap f) := by
  induction xs with
  | nil => exact .nil
  | cons x xs ih =>
    obtain ⟨y, hy, hp⟩ := h x List.mem_cons_self
    rw [List.filterMap_cons_some hy]
    exact .cons hp (ih fun z hz => h z (List.mem_cons_of_mem _ hz))

end Segments

/-! ## Bodies stop in front of a declaration -/

/-- There is no declaration among the lines. -/
def Undeclared (ls : List Line) : Prop := ∀ l ∈ ls, isDeclaration l = false

/-- Where there are lines, the first is a declaration. -/
def AtDeclaration (ls : List Line) : Prop := ∀ l, ls.head? = some l → isDeclaration l = true

theorem Undeclared.of_suffix {ls ks : List Line} (h : Undeclared ls) (hs : ks <:+ ls) :
    Undeclared ks := fun l hl => h l (hs.subset hl)

theorem findOpening_suffix (ls : List Line) : (findOpening ls).2 <:+ ls := by
  induction ls with
  | nil => exact List.suffix_rfl
  | cons l ls ih =>
    rw [findOpening]
    split
    · exact List.suffix_rfl
    · split
      · exact List.suffix_cons l ls
      · exact ih.trans (List.suffix_cons l ls)

theorem readBody_suffix (types : TypeTable) (ls : List Line) : (readBody types ls).2 <:+ ls := by
  induction ls with
  | nil => exact List.suffix_rfl
  | cons l ls ih =>
    rw [readBody]
    split
    · exact List.suffix_rfl
    · split
      · exact List.suffix_cons l ls
      · exact ih.trans (List.suffix_cons l ls)

theorem findOpening_at {rest : List Line} (h : AtDeclaration rest) :
    findOpening rest = (none, rest) := by
  cases rest with
  | nil => rfl
  | cons l rest => rw [findOpening, if_pos (h l rfl)]

theorem readBody_at (types : TypeTable) {rest : List Line} (h : AtDeclaration rest) :
    readBody types rest = ([], rest) := by
  cases rest with
  | nil => rfl
  | cons l rest => rw [readBody, if_pos (h l rfl)]

variable {ls rest : List Line}

theorem findOpening_append (hl : Undeclared ls) (hr : AtDeclaration rest) :
    findOpening (ls ++ rest) = ((findOpening ls).1, (findOpening ls).2 ++ rest) := by
  induction ls with
  | nil => exact findOpening_at hr
  | cons l ls ih =>
    have hplain : ¬ isDeclaration l = true := by simp [hl l List.mem_cons_self]
    rw [List.cons_append, findOpening, findOpening, if_neg hplain, if_neg hplain]
    cases afterBrace? l with
    | some text => rfl
    | none => exact ih fun k hk => hl k (List.mem_cons_of_mem _ hk)

theorem readBody_append (types : TypeTable) (hl : Undeclared ls) (hr : AtDeclaration rest) :
    readBody types (ls ++ rest) = ((readBody types ls).1, (readBody types ls).2 ++ rest) := by
  induction ls with
  | nil => exact readBody_at types hr
  | cons l ls ih =>
    have hplain : ¬ isDeclaration l = true := by simp [hl l List.mem_cons_self]
    rw [List.cons_append, readBody, readBody, if_neg hplain, if_neg hplain]
    by_cases hc : closes l = true
    · rw [if_pos hc, if_pos hc]
    · rw [if_neg hc, if_neg hc, ih fun k hk => hl k (List.mem_cons_of_mem _ hk)]

/-- The body behind an opening brace, if there is one. -/
def readOpened (types : TypeTable) : Option Line → List Line → List Member × List Line
  | none, ls => ([], ls)
  | some text, ls =>
    if closes text then (lineMembers types text, ls)
    else (lineMembers types text ++ (readBody types ls).1, (readBody types ls).2)

theorem readMembers_eq (types : TypeTable) (h : Heading) (ls : List Line) :
    readMembers types h ls =
      match afterBrace? h.trailer with
      | some text => readOpened types (some text) ls
      | none => readOpened types (findOpening ls).1 (findOpening ls).2 := by
  unfold readMembers
  cases afterBrace? h.trailer with
  | some text => rfl
  | none =>
    cases hopening : findOpening ls with
    | mk opening ks => cases opening <;> rfl

theorem readOpened_append (types : TypeTable) (opening : Option Line) (hl : Undeclared ls)
    (hr : AtDeclaration rest) :
    readOpened types opening (ls ++ rest) =
      ((readOpened types opening ls).1, (readOpened types opening ls).2 ++ rest) := by
  cases opening with
  | none => rfl
  | some text =>
    rw [readOpened, readOpened, readBody_append types hl hr]
    split <;> rfl

theorem readOpened_suffix (types : TypeTable) (opening : Option Line) (ls : List Line) :
    (readOpened types opening ls).2 <:+ ls := by
  cases opening with
  | none => exact List.suffix_rfl
  | some text =>
    rw [readOpened]
    split
    · exact List.suffix_rfl
    · exact readBody_suffix types ls

theorem readMembers_append (types : TypeTable) (h : Heading) (hl : Undeclared ls)
    (hr : AtDeclaration rest) :
    readMembers types h (ls ++ rest) =
      ((readMembers types h ls).1, (readMembers types h ls).2 ++ rest) := by
  rw [readMembers_eq, readMembers_eq]
  cases afterBrace? h.trailer with
  | some text => exact readOpened_append types _ hl hr
  | none =>
    dsimp only
    rw [findOpening_append hl hr]
    exact readOpened_append types _ (hl.of_suffix (findOpening_suffix ls)) hr

theorem readMembers_suffix (types : TypeTable) (h : Heading) (ls : List Line) :
    (readMembers types h ls).2 <:+ ls := by
  rw [readMembers_eq]
  cases afterBrace? h.trailer with
  | some text => exact readOpened_suffix types _ ls
  | none => exact (readOpened_suffix types _ _).trans (findOpening_suffix ls)

theorem readStructs_undeclared (types : TypeTable) (hl : Undeclared ls) (rest : List Line) :
    readStructs types (ls ++ rest) = readStructs types rest := by
  induction ls with
  | nil => rfl
  | cons l ls ih =>
    have hnone : declaration? l = none := by
      simpa [isDeclaration] using hl l List.mem_cons_self
    rw [List.cons_append, readStructs, hnone]
    exact ih fun k hk => hl k (List.mem_cons_of_mem _ hk)

/-- A declaration and the lines up to the next one make a struct, and are gone. -/
theorem readStructs_declaration (types : TypeTable) {l : Line} {h : Heading}
    (hd : declaration? l = some h) (hl : Undeclared ls) (hr : AtDeclaration rest) :
    readStructs types (l :: (ls ++ rest)) =
      Struct.ofHeading h (readMembers types h ls).1 :: readStructs types rest := by
  rw [readStructs, hd]
  simp only [readMembers_append types h hl hr]
  rw [readStructs_undeclared types (hl.of_suffix (readMembers_suffix types h ls))]

/-- The struct of a segment, whose first line declares it. -/
def segmentStruct? (types : TypeTable) : List Line → Option Struct
  | [] => none
  | l :: ls => (declaration? l).map fun h => Struct.ofHeading h (readMembers types h ls).1

theorem segmentStruct?_declaration (types : TypeTable) {l : Line} {h : Heading}
    (hd : declaration? l = some h) (ls : List Line) :
    segmentStruct? types (l :: ls) = some (Struct.ofHeading h (readMembers types h ls).1) := by
  rw [segmentStruct?, hd, Option.map_some]

theorem readStructs_eq_segments (types : TypeTable) (ls : List Line) :
    readStructs types ls = (segments isDeclaration ls).filterMap (segmentStruct? types) := by
  induction hn : ls.length using Nat.strong_induction_on generalizing ls with
  | h n ih =>
    cases ls with
    | nil => rw [readStructs]; rfl
    | cons l ls =>
      rw [List.length_cons] at hn
      rw [segments]
      cases hd : declaration? l with
      | none =>
        have hplain : ¬ isDeclaration l = true := by simp [isDeclaration, hd]
        rw [if_neg hplain, readStructs, hd]
        exact ih ls.length (by omega) ls rfl
      | some h =>
        have hdeclares : isDeclaration l = true := by rw [isDeclaration, hd]; rfl
        have hsplit := List.takeWhile_append_dropWhile (p := (!isDeclaration ·)) (l := ls)
        have hbody : Undeclared (ls.takeWhile (!isDeclaration ·)) := fun k hk => by
          simpa using List.mem_takeWhile_imp hk
        have hrest : AtDeclaration (ls.dropWhile (!isDeclaration ·)) := fun k hk => by
          have := List.head?_dropWhile_not (!isDeclaration ·) ls
          simpa [hk] using this
        have hlen : (ls.dropWhile (!isDeclaration ·)).length ≤ ls.length :=
          (List.dropWhile_suffix _).length_le
        have hstruct := segmentStruct?_declaration types hd (ls.takeWhile (!isDeclaration ·))
        have hsegments : segments isDeclaration ls =
            segments isDeclaration (ls.dropWhile (!isDeclaration ·)) := by
          have hskip := segments_append_plain isDeclaration hbody (ls.dropWhile (!isDeclaration ·))
          rwa [hsplit] at hskip
        rw [if_pos hdeclares, List.filterMap_cons_some hstruct, hsegments,
          ← ih _ (by omega) (ls.dropWhile (!isDeclaration ·)) rfl,
          ← readStructs_declaration types hd hbody hrest, hsplit]

/-- The struct of a segment has the name that its first line declares. -/
theorem map_name_segments (types : TypeTable) (ls : List Line) :
    ((segments isDeclaration ls).filterMap (segmentStruct? types)).map (·.name) =
      (ls.filterMap declaration?).map (String.ofList ·.name) := by
  induction ls with
  | nil => rfl
  | cons l ls ih =>
    rw [segments]
    cases hd : declaration? l with
    | none =>
      rw [if_neg (by simp [isDeclaration, hd]), List.filterMap_cons_none hd]
      exact ih
    | some h =>
      have hstruct := segmentStruct?_declaration types hd (ls.takeWhile (!isDeclaration ·))
      rw [if_pos (by simp [isDeclaration, hd]), List.filterMap_cons_some hstruct,
        List.filterMap_cons_some hd, List.map_cons, List.map_cons, ih]
      rfl

/-! ## One header -/

/-- A struct as it is, or a header that counts as a plain struct. -/
def KeptOrDemoted (s t : Struct) : Prop :=
  t = s ∨ s.role = .header ∧ t = { s with role := .user }

theorem KeptOrDemoted.name_eq {s t : Struct} (h : KeptOrDemoted s t) : t.name = s.name := by
  rcases h with rfl | ⟨_, rfl⟩ <;> rfl

theorem keepFirstHeader_keptOrDemoted (ss : List Struct) :
    List.Forall₂ KeptOrDemoted ss (keepFirstHeader ss) := by
  induction ss with
  | nil => exact .nil
  | cons s ss ih =>
    rw [keepFirstHeader]
    by_cases h : s.role = .header
    · rw [if_pos h]
      refine .cons (Or.inl rfl) (List.forall₂_map_right_iff.mpr (List.forall₂_same.mpr fun t _ => ?_))
      by_cases ht : t.role = .header
      · exact Or.inr ⟨ht, if_pos ht⟩
      · exact Or.inl (if_neg ht)
    · rw [if_neg h]
      exact .cons (Or.inl rfl) ih

theorem map_name_keepFirstHeader (ss : List Struct) :
    (keepFirstHeader ss).map (·.name) = ss.map (·.name) := by
  have h := keepFirstHeader_keptOrDemoted ss
  generalize keepFirstHeader ss = ts at h
  induction h with
  | nil => rfl
  | cons hs _ ih => rw [List.map_cons, List.map_cons, hs.name_eq, ih]

theorem find?_header_keepFirstHeader {ss : List Struct} {s : Struct}
    (h : s ∈ keepFirstHeader ss) (hr : s.role = .header) :
    (keepFirstHeader ss).find? (·.role = .header) = some s := by
  induction ss with
  | nil => cases h
  | cons t ss ih =>
    rw [keepFirstHeader] at h ⊢
    by_cases ht : t.role = .header
    · rw [if_pos ht, List.mem_cons] at h
      rw [if_pos ht, List.find?_cons_of_pos (by simpa using ht)]
      rcases h with rfl | h
      · rfl
      · obtain ⟨u, _, rfl⟩ := List.mem_map.mp h
        split at hr
        · cases hr
        · contradiction
    · rw [if_neg ht, List.mem_cons] at h
      rw [if_neg ht, List.find?_cons_of_neg (by simpa using ht)]
      rcases h with rfl | h
      · exact absurd hr ht
      · exact ih h

theorem structs_of_parse {options : Options} {text : String} {d : Document}
    (h : Document.parse options text = .ok d) : ∃ ss, d.structs = keepFirstHeader ss := by
  unfold Document.parse at h
  dsimp only at h
  split at h
  · cases h
  · exact ⟨_, congrArg Document.structs (Except.ok.inj h).symm⟩

/-- A document has one header at most. -/
theorem header?_of_parse {options : Options} {text : String} {d : Document}
    (h : Document.parse options text = .ok d) {s : Struct} (hs : s ∈ d.structs)
    (hr : s.role = .header) : d.header? = some s := by
  obtain ⟨ss, hss⟩ := structs_of_parse h
  rw [hss] at hs
  rw [Document.header?, hss]
  exact find?_header_keepFirstHeader hs hr

/-! ## The source of a segment -/

/-- A declaration begins with its keyword. -/
theorem skipGap_of_isDeclaration {l : Line} (h : isDeclaration l = true) :
    ∃ s, skipGap l = 's' :: s := by
  obtain ⟨d, hd⟩ := Option.isSome_iff_exists.mp h
  obtain ⟨hheading, _⟩ := Option.filter_eq_some_iff.mp hd
  unfold heading? at hheading
  split at hheading
  · cases hheading
  · rename_i s hs
    exact ⟨_, (List.isPrefixOf?_eq_some_iff_append_eq.mp hs).symm⟩

theorem isDeclaration_of_skipGap {l : Line} (h : ∀ s, skipGap l ≠ 's' :: s) :
    isDeclaration l = false := by
  rw [Bool.eq_false_iff]
  intro hd
  obtain ⟨s, hs⟩ := skipGap_of_isDeclaration hd
  exact h s hs

/-- A declaration is neither blank nor a directive. -/
theorem plain_of_isDeclaration {l : Line} (h : isDeclaration l = true) :
    l.all isBlank = false ∧ directive? l = none := by
  obtain ⟨s, hs⟩ := skipGap_of_isDeclaration h
  constructor
  · have hmem : 's' ∈ l := by
      have hsuffix : skipGap l <:+ l := List.dropWhile_suffix _
      exact hsuffix.subset (hs ▸ List.mem_cons_self)
    rw [List.all_eq_false]
    exact ⟨'s', hmem, by decide⟩
  · rw [directive?, hs]
    rfl

theorem readDirectives_of_declaration (d : Directives) {l : Line} (h : isDeclaration l = true)
    (ls : List Line) : readDirectives d (l :: ls) = (d, l :: ls) := by
  obtain ⟨hblank, hdirective⟩ := plain_of_isDeclaration h
  rw [readDirectives, if_neg (by simp [hblank]), hdirective]

/-- The block of directives has no declaration in it. -/
theorem segments_readDirectives (d : Directives) (ls : List Line) :
    segments isDeclaration (readDirectives d ls).2 = segments isDeclaration ls := by
  induction ls generalizing d with
  | nil => rfl
  | cons l ls ih =>
    by_cases h : isDeclaration l = true
    · rw [readDirectives_of_declaration d h]
    · have hskip : segments isDeclaration (l :: ls) = segments isDeclaration ls := by
        rw [segments, if_neg h]
      rw [hskip, readDirectives]
      split
      · exact ih d
      · split
        · exact ih _
        · exact hskip

/-- A source from each line that declares a struct up to the next one. -/
def sourceSegments (s : List Char) : List (List Char) :=
  (segments (isDeclaration ∘ lineOf) (pieces s)).map List.flatten

/-- A source is some lines without a declaration and then segments, each of which begins with the one
declaration in it. -/
structure Cuts (s lead : List Char) (segs : List (List Char)) : Prop where
  text : s = lead ++ segs.flatten
  lines : lines s = lines lead ++ segs.flatMap lines
  lead : Undeclared (Text.lines lead)
  declares : ∀ seg ∈ segs, ∃ l ls, Text.lines seg = l :: ls ∧ isDeclaration l = true ∧ Undeclared ls

theorem exists_cuts {s : List Char} (hr : '\r' ∉ s) : ∃ lead, Cuts s lead (sourceSegments s) := by
  have hsplit := takeWhile_append_segments (isDeclaration ∘ lineOf) (pieces s)
  have hprefix : (pieces s).takeWhile (!(isDeclaration ∘ lineOf) ·) <:+: pieces s :=
    (List.takeWhile_prefix _).isInfix
  have hlines : ∀ seg ∈ segments (isDeclaration ∘ lineOf) (pieces s),
      lines seg.flatten = seg.map lineOf :=
    fun seg hseg => lines_flatten hr (mem_segments _ hseg).1
  refine ⟨((pieces s).takeWhile (!(isDeclaration ∘ lineOf) ·)).flatten, ?_, ?_, ?_, ?_⟩
  · rw [sourceSegments, ← List.flatten_flatten, ← List.flatten_append, hsplit, flatten_pieces]
  · have hsegs : (sourceSegments s).flatMap lines =
        (segments (isDeclaration ∘ lineOf) (pieces s)).flatten.map lineOf := by
      rw [sourceSegments, List.flatMap_map, List.map_flatten, List.flatMap_def]
      exact congrArg List.flatten (List.map_congr_left hlines)
    rw [hsegs, lines_flatten hr hprefix, ← List.map_append, hsplit, lines_eq_pieces hr]
  · intro l hl
    rw [lines_flatten hr hprefix] at hl
    obtain ⟨p, hp, rfl⟩ := List.mem_map.mp hl
    simpa using List.mem_takeWhile_imp hp
  · intro seg hseg
    obtain ⟨ps, hps, rfl⟩ := List.mem_map.mp hseg
    obtain ⟨p, rest, rfl, hp, hrest⟩ := (mem_segments _ hps).2
    refine ⟨lineOf p, rest.map lineOf, hlines _ hps, hp, ?_⟩
    intro l hl
    obtain ⟨q, hq, rfl⟩ := List.mem_map.mp hl
    exact hrest q hq

/-- A segment alone is a source of one struct, under the directives that hold without any. -/
theorem parse_segment (options : Options) {seg : List Char} {l : Line} {ls : List Line}
    (hlines : Text.lines seg = l :: ls) (hd : isDeclaration l = true) (hplain : Undeclared ls) :
    ∃ s, segmentStruct? options.types (l :: ls) = some s ∧
      Document.parse options (String.ofList seg) = .ok ⟨options.directives, [s]⟩ := by
  obtain ⟨h, hh⟩ := Option.isSome_iff_exists.mp hd
  have hblank : seg.all isBlank = false := by
    obtain ⟨c, hc, hcb⟩ := List.all_eq_false.mp (plain_of_isDeclaration hd).1
    have hsub : l ⊆ seg := subset_of_mem_lines (hlines ▸ List.mem_cons_self)
    exact List.all_eq_false.mpr ⟨c, hsub hc, hcb⟩
  have hread : readStructs options.types (l :: ls) =
      [Struct.ofHeading h (readMembers options.types h ls).1] := by
    have hend : AtDeclaration [] := by rintro _ ⟨⟩
    have hall := readStructs_declaration options.types hh hplain hend
    rwa [List.append_nil, readStructs] at hall
  refine ⟨_, segmentStruct?_declaration options.types hh ls, ?_⟩
  unfold Document.parse
  simp only [String.toList_ofList, hblank, Bool.false_eq_true, if_false, hlines,
    readDirectives_of_declaration _ hd, hread]
  rw [keepFirstHeader, keepFirstHeader, List.map_nil, ite_self]

/-- The document of a source, struct by struct from its segments. -/
def documentOf (options : Options) (text : String) : Document :=
  let (directives, ls) := readDirectives options.directives (lines text.toList)
  ⟨directives, keepFirstHeader <|
    (segments isDeclaration ls).filterMap (segmentStruct? options.types)⟩

theorem parse_eq_documentOf (options : Options) {text : String}
    (hblank : text.toList.all isBlank = false) :
    Document.parse options text = .ok (documentOf options text) := by
  unfold Document.parse documentOf
  simp only [hblank, Bool.false_eq_true, if_false, readStructs_eq_segments]

/-- The structs of a source are those of its segments, but for further headers. -/
theorem parse_eq_segments (options : Options) {text : String}
    (hblank : text.toList.all isBlank = false) (hr : '\r' ∉ text.toList) :
    ∃ d lead alone, Document.parse options text = .ok d ∧
      Cuts text.toList lead (sourceSegments text.toList) ∧
      d.structs.map (·.name) =
        ((readDirectives options.directives (lines text.toList)).2.filterMap declaration?).map
          (String.ofList ·.name) ∧
      List.Forall₂ (fun seg s =>
          Document.parse options (String.ofList seg) = .ok ⟨options.directives, [s]⟩)
        (sourceSegments text.toList) alone ∧
      d.structs = keepFirstHeader alone ∧
      List.Forall₂ KeptOrDemoted alone d.structs := by
  obtain ⟨lead, hcuts⟩ := exists_cuts hr
  let body := (readDirectives options.directives (lines text.toList)).2
  let alone := (segments isDeclaration body).filterMap (segmentStruct? options.types)
  refine ⟨documentOf options text, lead, alone, parse_eq_documentOf options hblank, hcuts, ?_, ?_, rfl,
    keepFirstHeader_keptOrDemoted alone⟩
  · rw [← map_name_segments options.types body]
    exact map_name_keepFirstHeader alone
  · have halone : alone = (segments (isDeclaration ∘ lineOf) (pieces text.toList)).filterMap
        (segmentStruct? options.types ∘ List.map lineOf) := by
      rw [← List.filterMap_map, ← segments_map, ← lines_eq_pieces hr,
        ← segments_readDirectives options.directives]
    rw [sourceSegments, List.forall₂_map_left_iff, halone]
    refine forall₂_filterMap fun ps hps => ?_
    obtain ⟨l, ls, hlines, hd, hplain⟩ := hcuts.declares _ (List.mem_map_of_mem hps)
    have hps : ps.map lineOf = l :: ls := by
      rw [← hlines, lines_flatten hr (mem_segments _ hps).1]
    rw [Function.comp_apply, hps]
    exact parse_segment options hlines hd hplain

/-- A body that is not closed, a second header whose body is not opened, and a body on one line. -/
theorem parse_eq_segments_unclosed :
    let text := "//+PACK_SIZE=4\nstruct A //$()$\n\x7b int a;\n\nstruct B //$()$\nint b;\nstruct C \x7b int c; \x7d"
    let segs := ["struct A //$()$\n\x7b int a;\n\n".toList, "struct B //$()$\nint b;\n".toList,
      "struct C \x7b int c; \x7d".toList]
    text.toList.all isBlank = false ∧ '\r' ∉ text.toList ∧
      ∃ d alone, Document.parse {} text = .ok d ∧ d.structs.map (·.name) = ["A", "B", "C"] ∧
        List.Forall₂ (fun seg s => Document.parse {} (String.ofList seg) = .ok ⟨{}, [s]⟩)
          segs alone ∧
        d.structs = keepFirstHeader alone := by
  intro text segs
  have hblank : text.toList.all isBlank = false := by decide
  have hreturn : '\r' ∉ text.toList := by decide
  have hsegs : sourceSegments text.toList = segs := by decide +kernel
  obtain ⟨d, _, alone, hparse, _, hnames, halone, hstructs, _⟩ :=
    parse_eq_segments {} hblank hreturn
  refine ⟨hblank, hreturn, d, alone, hparse, ?_, hsegs ▸ halone, hstructs⟩
  rw [hnames]
  decide +kernel

end Datagram.Idl
