import Datagram.Proofs.Text.Blank
import Datagram.Text.Blank
import Mathlib.Data.List.TakeWhile

/-! # Lines read back

Lines that are written with a line feed behind each are the lines of the text, unless one of them
breaks off itself. A text without a line feed in front of another text is in front of its first line. A
text without carriage returns is cut behind its line feeds into pieces, one for each of its lines, and
any run of these pieces is a text with just those lines. -/

namespace Datagram.Text

/-- A line without a break in it. -/
def Unbroken (line : List Char) : Prop := '\n' ∉ line ∧ '\r' ∉ line

theorem dropReturn_of_no_return {line : List Char} (h : '\r' ∉ line) : dropReturn line = line := by
  unfold dropReturn
  split
  · rename_i hlast
    exact absurd (List.mem_of_getLast? hlast) h
  · rfl

theorem dropReturn_of_unbroken {line : List Char} (h : Unbroken line) : dropReturn line = line :=
  dropReturn_of_no_return h.2

theorem dropReturn_isPrefix (l : List Char) : dropReturn l <+: l := by
  unfold dropReturn
  split
  · exact List.dropLast_prefix l
  · exact List.prefix_rfl

theorem splitOn_lines {ls : List (List Char)} (h : ∀ l ∈ ls, Unbroken l) :
    (ls.flatMap (· ++ ['\n'])).splitOn '\n' = ls ++ [[]] := by
  induction ls with
  | nil => rfl
  | cons l ls ih =>
    have hl := (h l List.mem_cons_self).1
    rw [List.flatMap_cons, List.append_assoc, List.singleton_append,
      List.splitOn_append_cons_self_of_not_mem hl, ih fun k hk => h k (List.mem_cons_of_mem _ hk)]
    rfl

theorem lines_of_unbroken {ls : List (List Char)} (h : ∀ l ∈ ls, Unbroken l) :
    lines (ls.flatMap (· ++ ['\n'])) = ls := by
  have hmap : ls.map dropReturn = ls := by
    have hid : ls.map dropReturn = ls.map id :=
      List.map_congr_left fun l hl => dropReturn_of_unbroken (h l hl)
    rw [hid, List.map_id]
  have hlast : (ls ++ [[]]).getLastD [] = [] := by simp [List.getLastD_eq_getLast?]
  unfold lines
  simp only [splitOn_lines h, List.dropLast_concat, hmap, hlast]
  simp

/-! ## A text cut at its line feeds -/

theorem splitOn_newline (s : List Char) : ('\n' :: s).splitOn '\n' = [] :: s.splitOn '\n' := by
  rw [List.splitOn, List.splitOnP_cons_eq_if_modifyHead, if_pos (by simp)]
  rfl

theorem splitOn_append {a : List Char} (ha : '\n' ∉ a) {s l : List Char} {parts : List (List Char)}
    (h : s.splitOn '\n' = l :: parts) : (a ++ s).splitOn '\n' = (a ++ l) :: parts := by
  induction a with
  | nil => exact h
  | cons c a ih =>
    obtain ⟨hc, ha⟩ := not_or.mp (mt List.mem_cons.mpr ha)
    have ih : (a ++ s).splitOnP (· == '\n') = (a ++ l) :: parts := ih ha
    rw [List.cons_append, List.splitOn, List.splitOnP_cons_eq_if_modifyHead,
      if_neg (by simpa using Ne.symm hc), ih]
    rfl

/-- The lines of a text that its line feeds cut into the given parts, the last of them also if it is
empty. -/
def rowsOf : List (List Char) → List (List Char)
  | [] => []
  | [l] => [l]
  | l :: k :: parts => dropReturn l :: rowsOf (k :: parts)

/-- The lines without a last one that is empty. -/
def dropEmptyEnd : List (List Char) → List (List Char)
  | [] => []
  | [l] => if l.isEmpty then [] else [l]
  | l :: k :: rows => l :: dropEmptyEnd (k :: rows)

/-- The lines of a text, and an empty one behind a line feed at its end. -/
def rows (s : List Char) : List (List Char) := rowsOf (s.splitOn '\n')

section Rows

variable {l : List Char} {parts : List (List Char)}

theorem rowsOf_ne_nil (h : parts ≠ []) : rowsOf parts ≠ [] := by
  fun_cases rowsOf parts with
  | case1 => exact absurd rfl h
  | case2 l => exact List.cons_ne_nil _ _
  | case3 l k parts => exact List.cons_ne_nil _ _

theorem dropEmptyEnd_cons (h : l ≠ [] ∨ parts ≠ []) :
    dropEmptyEnd (l :: parts) = l :: dropEmptyEnd parts := by
  cases parts with
  | nil =>
    have hne : l.isEmpty = false := List.isEmpty_eq_false_iff.mpr (h.resolve_right (fun h => h rfl))
    simp [dropEmptyEnd, hne]
  | cons k parts => rw [dropEmptyEnd]

theorem lines_eq_rows (s : List Char) : lines s = dropEmptyEnd (rows s) := by
  have hparts : ∀ parts : List (List Char),
      parts.dropLast.map dropReturn ++ [parts.getLastD []].filter (!·.isEmpty) =
        dropEmptyEnd (rowsOf parts) := by
    intro parts
    fun_induction rowsOf parts with
    | case1 => rfl
    | case2 l => cases l <;> rfl
    | case3 l k parts ih =>
      rw [dropEmptyEnd_cons (Or.inr (rowsOf_ne_nil (List.cons_ne_nil k parts))), ← ih]
      simp only [List.dropLast_cons_cons, List.map_cons, List.cons_append, List.getLastD_eq_getLast?,
        List.getLast?_cons_cons]
  exact hparts (s.splitOn '\n')

theorem exists_rows (s : List Char) : ∃ l ls, rows s = l :: ls :=
  List.exists_cons_of_ne_nil (rowsOf_ne_nil (List.splitOn_ne_nil _ _))

theorem rows_newline (s : List Char) : rows ('\n' :: s) = [] :: rows s := by
  obtain ⟨k, parts, hk⟩ := List.exists_cons_of_ne_nil (List.splitOn_ne_nil '\n' s)
  rw [rows, splitOn_newline, rows, hk]
  rfl

theorem rows_return_newline (s : List Char) : rows ('\r' :: '\n' :: s) = [] :: rows s := by
  have hsplit := splitOn_append (a := ['\r']) (by decide) (splitOn_newline s)
  obtain ⟨k, parts, hk⟩ := List.exists_cons_of_ne_nil (List.splitOn_ne_nil '\n' s)
  rw [List.singleton_append] at hsplit
  rw [rows, hsplit, rows, hk]
  rfl

theorem dropReturn_append {a : List Char} (h : a.getLast? ≠ some '\r') (l : List Char) :
    dropReturn (a ++ l) = a ++ dropReturn l := by
  rcases List.eq_nil_or_concat l with rfl | ⟨l, c, rfl⟩
  · rw [List.append_nil, dropReturn, if_neg h]
    exact (List.append_nil a).symm
  · rw [List.concat_eq_append, ← List.append_assoc, dropReturn, dropReturn, List.getLast?_concat,
      List.getLast?_concat, List.dropLast_concat, List.dropLast_concat]
    split
    · rfl
    · rw [List.append_assoc]

theorem rows_append {a s : List Char} {ls : List (List Char)} (hbreak : '\n' ∉ a)
    (hlast : a.getLast? ≠ some '\r') (h : rows s = l :: ls) : rows (a ++ s) = (a ++ l) :: ls := by
  obtain ⟨k, parts, hk⟩ := List.exists_cons_of_ne_nil (List.splitOn_ne_nil '\n' s)
  rw [rows, hk] at h
  rw [rows, splitOn_append hbreak hk]
  cases parts with
  | nil =>
    obtain ⟨rfl, rfl⟩ := List.cons.inj h
    rfl
  | cons j parts =>
    rw [rowsOf] at h ⊢
    obtain ⟨rfl, rfl⟩ := List.cons.inj h
    rw [dropReturn_append hlast]

theorem infix_of_mem_rows {s : List Char} (h : l ∈ rows s) : l <:+: s := by
  have hparts : ∀ parts : List (List Char), l ∈ rowsOf parts → ∃ p ∈ parts, l <+: p := by
    intro parts
    fun_induction rowsOf parts with
    | case1 => exact fun hl => absurd hl List.not_mem_nil
    | case2 p => exact fun hl => ⟨p, List.mem_cons_self, List.mem_singleton.mp hl ▸ List.prefix_rfl⟩
    | case3 p k parts ih =>
      intro hl
      rcases List.mem_cons.mp hl with rfl | hl
      · exact ⟨p, List.mem_cons_self, dropReturn_isPrefix p⟩
      · obtain ⟨q, hq, hprefix⟩ := ih hl
        exact ⟨q, List.mem_cons_of_mem _ hq, hprefix⟩
  obtain ⟨p, hp, hprefix⟩ := hparts _ h
  exact hprefix.isInfix.trans (infix_of_mem_splitOn hp)

end Rows

/-! ## A text cut behind its line feeds -/

/-- The lines of a text with the line feeds that end them. -/
def pieces (s : List Char) : List (List Char) :=
  let parts := s.splitOn '\n'
  parts.dropLast.map (· ++ ['\n']) ++ [parts.getLastD []].filter (!·.isEmpty)

/-- A piece without its line feed. -/
def lineOf (piece : List Char) : List Char := piece.takeWhile (· ≠ '\n')

/-- A text is one line without a line feed, or a line with one in front of a text. -/
theorem lines_induction {P : List Char → Prop} (last : ∀ l, '\n' ∉ l → P l)
    (line : ∀ l s, '\n' ∉ l → P s → P (l ++ '\n' :: s)) (s : List Char) : P s := by
  induction hn : s.length using Nat.strong_induction_on generalizing s with
  | h n ih =>
    by_cases h : '\n' ∈ s
    · obtain ⟨l, t, rfl, hl⟩ := List.eq_append_cons_of_mem h
      rw [List.length_append, List.length_cons] at hn
      exact line l t hl (ih t.length (by omega) t rfl)
    · exact last s h

variable {l : List Char}

theorem pieces_line (h : '\n' ∉ l) (s : List Char) :
    pieces (l ++ '\n' :: s) = (l ++ ['\n']) :: pieces s := by
  have hne : s.splitOn '\n' ≠ [] := List.splitOn_ne_nil _ _
  unfold pieces
  rw [List.splitOn_append_cons_self_of_not_mem h]
  simp only [List.dropLast_cons_of_ne_nil hne, List.map_cons, List.cons_append,
    List.getLastD_eq_getLast?, List.getLast?_cons_of_ne_nil hne]

theorem lines_line (h : '\n' ∉ l) (s : List Char) :
    lines (l ++ '\n' :: s) = dropReturn l :: lines s := by
  have hne : s.splitOn '\n' ≠ [] := List.splitOn_ne_nil _ _
  unfold lines
  rw [List.splitOn_append_cons_self_of_not_mem h]
  simp only [List.dropLast_cons_of_ne_nil hne, List.map_cons, List.cons_append,
    List.getLastD_eq_getLast?, List.getLast?_cons_of_ne_nil hne]

theorem pieces_last (h : '\n' ∉ l) : pieces l = [l].filter (!·.isEmpty) := by
  unfold pieces
  rw [List.splitOn_eq_singleton h]
  rfl

theorem lines_last (h : '\n' ∉ l) : lines l = [l].filter (!·.isEmpty) := by
  unfold lines
  rw [List.splitOn_eq_singleton h]
  rfl

theorem subset_of_mem_lines {s line : List Char} (h : line ∈ lines s) : line ⊆ s := by
  induction s using lines_induction with
  | last l hl =>
    rw [lines_last hl, List.mem_filter, List.mem_singleton] at h
    exact h.1 ▸ List.Subset.refl l
  | line l s hl ih =>
    rw [lines_line hl, List.mem_cons] at h
    rcases h with rfl | h
    · exact List.subset_append_of_subset_left _ (dropReturn_isPrefix l).subset
    · exact List.subset_append_of_subset_right _ (List.subset_cons_of_subset _ (ih h))

theorem flatten_pieces (s : List Char) : (pieces s).flatten = s := by
  induction s using lines_induction with
  | last l h =>
    rw [pieces_last h]
    cases l <;> simp
  | line l s h ih =>
    rw [pieces_line h, List.flatten_cons, ih]
    simp

theorem lineOf_line (h : '\n' ∉ l) : lineOf (l ++ ['\n']) = l := by
  have hl : ∀ c ∈ l, decide (c ≠ '\n') = true := fun c hc =>
    decide_eq_true (ne_of_mem_of_not_mem hc h)
  rw [lineOf, List.takeWhile_append_of_pos hl]
  simp

theorem lineOf_last (h : '\n' ∉ l) : lineOf l = l := by
  rw [lineOf, List.takeWhile_eq_self_iff]
  exact fun c hc => decide_eq_true (ne_of_mem_of_not_mem hc h)

theorem lines_eq_pieces {s : List Char} (hr : '\r' ∉ s) : lines s = (pieces s).map lineOf := by
  induction s using lines_induction with
  | last l h =>
    rw [lines_last h, pieces_last h]
    cases l with
    | nil => rfl
    | cons c l => exact (congrArg (fun t => [t]) (lineOf_last h)).symm
  | line l s h ih =>
    have hl : '\r' ∉ l := fun hc => hr (List.mem_append_left _ hc)
    have hs : '\r' ∉ s := fun hc => hr (List.mem_append_right _ (List.mem_cons_of_mem _ hc))
    rw [lines_line h, dropReturn_of_unbroken ⟨h, hl⟩, pieces_line h, List.map_cons, lineOf_line h,
      ih hs]

/-- Where the pieces of a text are parted, the text is parted into two texts with these pieces. -/
theorem pieces_of_append {s : List Char} {ps qs : List (List Char)} (h : pieces s = ps ++ qs) :
    pieces ps.flatten = ps ∧ pieces qs.flatten = qs := by
  induction s using lines_induction generalizing ps with
  | last l hl =>
    have hnil : pieces [] = [] := rfl
    have hlast := flatten_pieces l
    rw [pieces_last hl] at h hlast
    cases ps with
    | nil =>
      rw [List.nil_append] at h
      rw [← h, hlast, pieces_last hl]
      exact ⟨hnil, rfl⟩
    | cons p ps =>
      have hps : ps = [] ∧ qs = [] := by
        have hlen := congrArg List.length h
        have hle := List.length_filter_le (!·.isEmpty) [l]
        simp only [List.length_append, List.length_cons, List.length_nil] at hlen hle
        exact ⟨List.length_eq_zero_iff.mp (by omega), List.length_eq_zero_iff.mp (by omega)⟩
      obtain ⟨rfl, rfl⟩ := hps
      rw [List.append_nil] at h
      rw [← h, hlast, pieces_last hl]
      exact ⟨rfl, hnil⟩
  | line l s hl ih =>
    rw [pieces_line hl] at h
    cases ps with
    | nil =>
      rw [List.nil_append] at h
      rw [← h, List.flatten_cons, flatten_pieces, List.append_assoc, List.singleton_append,
        pieces_line hl]
      exact ⟨rfl, rfl⟩
    | cons p ps =>
      obtain ⟨rfl, htail⟩ := List.cons.inj h
      obtain ⟨hps, hqs⟩ := ih htail
      rw [List.flatten_cons, List.append_assoc, List.singleton_append, pieces_line hl, hps]
      exact ⟨rfl, hqs⟩

theorem pieces_flatten {s : List Char} {ps : List (List Char)} (h : ps <:+: pieces s) :
    pieces ps.flatten = ps := by
  obtain ⟨a, b, hab⟩ := h
  have hleft := (pieces_of_append hab.symm).1
  exact (pieces_of_append hleft).2

theorem lines_flatten {s : List Char} (hr : '\r' ∉ s) {ps : List (List Char)}
    (h : ps <:+: pieces s) : lines ps.flatten = ps.map lineOf := by
  have hsub : ps.flatten ⊆ s := by
    intro c hc
    obtain ⟨p, hp, hcp⟩ := List.mem_flatten.mp hc
    rw [← flatten_pieces s]
    exact List.mem_flatten_of_mem (h.subset hp) hcp
  rw [lines_eq_pieces fun hc => hr (hsub hc), pieces_flatten h]

end Datagram.Text
