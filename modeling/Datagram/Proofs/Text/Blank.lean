import Datagram.Text.Blank
import Mathlib.Data.List.TakeWhile
import Mathlib.Tactic.Common

/-! # Texts cut at blanks

A text whose first and last characters are not blank is its own trimming. The words of a text are
what is left of it when its words are written with one space between them. -/

namespace Datagram

/-! ## Cutting a text at the end of a run -/

theorem takeWhile_exact {α : Type} {p : α → Bool} {s t : List α} (hs : ∀ c ∈ s, p c = true)
    (ht : ∀ c, t.head? = some c → p c = false) : (s ++ t).takeWhile p = s := by
  rw [List.takeWhile_append_of_pos hs]
  cases t with
  | nil => simp
  | cons c t => simp [ht c rfl]

theorem dropWhile_exact {α : Type} {p : α → Bool} {s t : List α} (hs : ∀ c ∈ s, p c = true)
    (ht : ∀ c, t.head? = some c → p c = false) : (s ++ t).dropWhile p = t := by
  rw [List.dropWhile_append_of_pos hs]
  cases t with
  | nil => rfl
  | cons c t => simp [ht c rfl]

/-- A text that begins with no character of a kind is not cut by leaving these out in front. -/
theorem infix_dropWhile {α : Type} {m s : List α} {p : α → Bool} (hm : ∃ c t, m = c :: t ∧ p c = false) :
    m <:+: s.dropWhile p ↔ m <:+: s := by
  obtain ⟨d, t, rfl, hd⟩ := hm
  induction s with
  | nil => rfl
  | cons c s ih =>
    by_cases hc : p c = true
    · rw [List.dropWhile_cons_of_pos hc, ih, List.infix_cons_iff]
      refine ⟨Or.inr, fun h => h.resolve_left ?_⟩
      rintro ⟨r, hr⟩
      rw [(List.cons.inj hr).1, hc] at hd
      cases hd
    · rw [List.dropWhile_cons_of_neg hc]

namespace Text

/-- No character of the text is blank. -/
def Solid (s : List Char) : Prop := ∀ c ∈ s, isBlank c = false

theorem solid_of_all {s : List Char} (h : s.all (fun c => !isBlank c) = true) : Solid s :=
  fun c hc => by simpa using List.all_eq_true.mp h c hc

theorem isBlank_space : isBlank ' ' = true := by decide

theorem isBlank_of_graphic {c : Char} (h : 33 ≤ c.toNat) (h' : c.toNat ≤ 126) :
    isBlank c = false := by
  by_contra hb
  rw [Bool.not_eq_false] at hb
  obtain ⟨r, hr, h₁, h₂⟩ := (within_iff blankRanges c).mp hb
  simp only [blankRanges, List.mem_cons, List.not_mem_nil, or_false] at hr
  rcases hr with rfl | rfl | rfl | rfl | rfl | rfl | rfl | rfl | rfl | rfl <;> simp only at h₁ h₂ <;>
    omega

theorem Solid.append {s t : List Char} (hs : Solid s) (ht : Solid t) : Solid (s ++ t) := by
  intro c hc
  exact (List.mem_append.mp hc).elim (hs c) (ht c)

/-! ## Trimming -/

theorem trimStart_cons {c : Char} (h : isBlank c = false) (s : List Char) :
    trimStart (c :: s) = c :: s := by
  simp [trimStart, h]

theorem trimStart_append_blank {t : List Char} (h : ∀ c ∈ t, isBlank c = true) (s : List Char) :
    trimStart (t ++ s) = trimStart s := by
  unfold trimStart
  rw [List.dropWhile_append_of_pos h]

theorem trimEnd_concat {c : Char} (h : isBlank c = false) (s : List Char) :
    trimEnd (s ++ [c]) = s ++ [c] := by
  simp [trimEnd, h]

theorem trimEnd_of_last {s : List Char} (h : ∀ c, s.getLast? = some c → isBlank c = false) :
    trimEnd s = s := by
  rcases List.eq_nil_or_concat s with rfl | ⟨t, c, rfl⟩
  · rfl
  · rw [List.concat_eq_append] at h ⊢
    exact trimEnd_concat (h c (by simp)) t

theorem trimStart_of_head {s : List Char} (h : ∀ c, s.head? = some c → isBlank c = false) :
    trimStart s = s := by
  cases s with
  | nil => rfl
  | cons c s => exact trimStart_cons (h c rfl) s

theorem trim_of_ends {s : List Char} (h : ∀ c, s.head? = some c → isBlank c = false)
    (h' : ∀ c, s.getLast? = some c → isBlank c = false) : trim s = s := by
  unfold trim
  rw [trimStart_of_head h, trimEnd_of_last h']

theorem trim_of_solid {s : List Char} (h : Solid s) : trim s = s :=
  trim_of_ends (fun c hc => h c (List.mem_of_head? hc)) (fun c hc => h c (List.mem_of_getLast? hc))

theorem trim_cons_blank {c : Char} (h : isBlank c = true) (s : List Char) :
    trim (c :: s) = trim s := by
  simp [trim, trimStart, h]

theorem trimEnd_cons (c : Char) (s : List Char) :
    trimEnd (c :: s) = if trimEnd s = [] ∧ isBlank c = true then [] else c :: trimEnd s := by
  unfold trimEnd
  rw [List.reverse_cons, List.dropWhile_append]
  by_cases hs : s.reverse.dropWhile isBlank = []
  · by_cases hc : isBlank c = true
    · simp [hs, hc]
    · simp [hs, hc]
  · simp [hs]

theorem trimEnd_append_cons {c : Char} (h : isBlank c = false) (s t : List Char) :
    trimEnd (s ++ c :: t) = s ++ c :: trimEnd t := by
  induction s with
  | nil => rw [List.nil_append, trimEnd_cons, if_neg (by simp [h]), List.nil_append]
  | cons d s ih => rw [List.cons_append, trimEnd_cons, ih, if_neg (by simp), List.cons_append]

theorem trimEnd_of_blank {s : List Char} (h : ∀ c ∈ s, isBlank c = true) : trimEnd s = [] := by
  have hblank : ∀ c ∈ s.reverse, isBlank c = true := fun c hc => h c (List.mem_reverse.mp hc)
  have hdrop : (s.reverse ++ []).dropWhile isBlank = [] := dropWhile_exact hblank (by simp)
  rw [List.append_nil] at hdrop
  rw [trimEnd, hdrop, List.reverse_nil]

theorem trimStart_trimEnd (s : List Char) : trimStart (trimEnd s) = trimEnd (trimStart s) := by
  induction s with
  | nil => rfl
  | cons c s ih =>
    rw [trimEnd_cons]
    by_cases hc : isBlank c = true
    · have hstart : trimStart (c :: s) = trimStart s := by simp [trimStart, hc]
      rw [hstart, ← ih]
      split
      · rename_i h
        rw [h.1]
      · simp [trimStart, hc]
    · have hc : isBlank c = false := by simpa using hc
      rw [if_neg (by simp [hc]), trimStart_cons hc, trimStart_cons hc, trimEnd_cons,
        if_neg (by simp [hc])]

theorem trimEnd_trimEnd (s : List Char) : trimEnd (trimEnd s) = trimEnd s := by
  induction s with
  | nil => rfl
  | cons c s ih =>
    rw [trimEnd_cons]
    split
    · rfl
    · rename_i h
      rw [trimEnd_cons, ih, if_neg h]

theorem trim_trimEnd (s : List Char) : trim (trimEnd s) = trim s := by
  rw [trim, trimStart_trimEnd, trimEnd_trimEnd, trim]

theorem trim_append_blank {lead trail : List Char} (hlead : ∀ c ∈ lead, isBlank c = true)
    (htrail : ∀ c ∈ trail, isBlank c = true) (s : List Char) :
    trim (lead ++ (s ++ trail)) = trim s := by
  have hend : trimEnd (s ++ trail) = trimEnd s := by
    unfold trimEnd
    rw [List.reverse_append,
      List.dropWhile_append_of_pos fun c hc => htrail c (List.mem_reverse.mp hc)]
  rw [trim, trimStart_append_blank hlead]
  change trim (s ++ trail) = trim s
  rw [← trim_trimEnd, hend, trim_trimEnd]

/-- What trimming leaves of a text is blank only if it is empty. -/
theorem not_blank_trimEnd {s : List Char} (h : trimEnd s ≠ []) :
    (trimEnd s).all isBlank = false := by
  induction s with
  | nil => exact absurd rfl h
  | cons c s ih =>
    rw [trimEnd_cons] at h ⊢
    split at h
    · exact absurd rfl h
    · rename_i hc
      rw [if_neg hc, List.all_cons, Bool.and_eq_false_iff]
      by_cases hs : trimEnd s = []
      · exact Or.inl (Bool.eq_false_iff.mpr fun hb => hc ⟨hs, hb⟩)
      · exact Or.inr (ih hs)

/-- Trimming takes off blanks and nothing else. -/
theorem exists_trim (s : List Char) : ∃ lead trail, s = lead ++ (trim s ++ trail) ∧
    (∀ c ∈ lead, isBlank c = true) ∧ ∀ c ∈ trail, isBlank c = true := by
  refine ⟨s.takeWhile isBlank, ((trimStart s).reverse.takeWhile isBlank).reverse, ?_, ?_, ?_⟩
  · have hend : trimEnd (trimStart s) ++ ((trimStart s).reverse.takeWhile isBlank).reverse =
        trimStart s := by
      rw [trimEnd, ← List.reverse_append, List.takeWhile_append_dropWhile, List.reverse_reverse]
    rw [trim, hend, trimStart, List.takeWhile_append_dropWhile]
  · exact fun c hc => List.mem_takeWhile_imp hc
  · exact fun c hc => List.mem_takeWhile_imp (List.mem_reverse.mp hc)

theorem length_trim_le (s : List Char) : (trim s).length ≤ s.length := by
  obtain ⟨lead, trail, hs, -⟩ := exists_trim s
  have hlength := congrArg List.length hs
  simp only [List.length_append] at hlength
  omega

/-! ## Parts -/

section Parts

variable {p : Char → Bool}

/-- What lies between the characters of a kind, without empty pieces. -/
def parts (p : Char → Bool) (s : List Char) : List (List Char) :=
  (s.splitOnP p).filter (!·.isEmpty)

theorem parts_cons_of_delimiter {c : Char} (h : p c = true) (s : List Char) :
    parts p (c :: s) = parts p s := by
  rw [parts, parts, List.splitOnP_cons_eq_if_modifyHead, if_pos h]
  rfl

theorem parts_delimiters_append {gap : List Char} (h : ∀ c ∈ gap, p c = true) (s : List Char) :
    parts p (gap ++ s) = parts p s := by
  induction gap with
  | nil => rfl
  | cons c gap ih =>
    rw [List.cons_append, parts_cons_of_delimiter (h c List.mem_cons_self)]
    exact ih fun d hd => h d (List.mem_cons_of_mem c hd)

theorem parts_append {s : List Char} (h : ∀ c ∈ s, p c = false) (hne : s ≠ []) {t : List Char}
    (ht : ∀ c, t.head? = some c → p c = true) : parts p (s ++ t) = s :: parts p t := by
  cases t with
  | nil =>
    rw [List.append_nil, parts, List.splitOnP_eq_singleton h,
      List.filter_cons_of_pos (by simpa using hne), parts, List.splitOnP_nil]
    rfl
  | cons c t =>
    have hc : p c = true := ht c rfl
    rw [parts_cons_of_delimiter hc, parts, List.splitOnP_append_cons_of_forall_mem h c hc,
      List.filter_cons_of_pos (by simpa using hne), parts]

end Parts

/-! ## Words -/

theorem solid_of_mem_splitOnP {s w : List Char} (h : w ∈ s.splitOnP isBlank) : Solid w := by
  induction s generalizing w with
  | nil =>
    rw [List.splitOnP_nil, List.mem_singleton] at h
    subst h
    intro c hc
    cases hc
  | cons c s ih =>
    rw [List.splitOnP_cons_eq_if_modifyHead] at h
    split at h
    · rcases List.mem_cons.mp h with rfl | h
      · intro c hc
        cases hc
      · exact ih h
    · rename_i hc
      cases hs : s.splitOnP isBlank with
      | nil => exact absurd hs (List.splitOnP_ne_nil _ _)
      | cons v vs =>
        rw [hs] at h ih
        rcases List.mem_cons.mp h with rfl | h
        · intro d hd
          rcases List.mem_cons.mp hd with rfl | hd
          · simpa using hc
          · exact ih List.mem_cons_self d hd
        · exact ih (List.mem_cons_of_mem _ h)

theorem mem_words {s w : List Char} (h : w ∈ words s) : w ≠ [] ∧ Solid w := by
  rw [words, List.mem_filter] at h
  exact ⟨by simpa using h.2, solid_of_mem_splitOnP h.1⟩

theorem splitOnP_of_solid {s : List Char} (h : Solid s) : s.splitOnP isBlank = [s] :=
  List.splitOnP_eq_singleton h

theorem words_of_solid {s : List Char} (h : Solid s) (hne : s ≠ []) : words s = [s] := by
  simp [words, splitOnP_of_solid h, hne]

theorem words_blank_append {gap : List Char} (h : ∀ c ∈ gap, isBlank c = true) (s : List Char) :
    words (gap ++ s) = words s := parts_delimiters_append h s

/-- A word ends in front of a blank, or with the text. -/
theorem words_append {s : List Char} (h : Solid s) (hne : s ≠ []) {t : List Char}
    (ht : ∀ c, t.head? = some c → isBlank c = true) : words (s ++ t) = s :: words t :=
  parts_append h hne ht

theorem words_append_space {s : List Char} (h : Solid s) (hne : s ≠ []) (t : List Char) :
    words (s ++ ' ' :: t) = s :: words t := by
  rw [words_append h hne (by simp [isBlank_space])]
  exact congrArg (s :: ·) (parts_cons_of_delimiter isBlank_space t)

/-- Words written with one space between them are read again. -/
theorem words_intercalate {ws : List (List Char)} (h : ∀ w ∈ ws, w ≠ [] ∧ Solid w) :
    words (List.intercalate [' '] ws) = ws := by
  induction ws with
  | nil => rfl
  | cons w ws ih =>
    obtain ⟨hne, hw⟩ := h w List.mem_cons_self
    cases ws with
    | nil => simpa using words_of_solid hw hne
    | cons v vs =>
      rw [List.intercalate_cons_cons, List.append_assoc, List.singleton_append,
        words_append_space hw hne, ih (fun u hu => h u (List.mem_cons_of_mem _ hu))]

theorem words_collapse (s : List Char) : words (collapse s) = words s :=
  words_intercalate (fun _ hw => mem_words hw)

theorem collapse_collapse (s : List Char) : collapse (collapse s) = collapse s := by
  rw [collapse, words_collapse, collapse]

theorem mem_intercalate_space {ws : List (List Char)} {c : Char}
    (h : c ∈ List.intercalate [' '] ws) : c = ' ' ∨ ∃ w ∈ ws, c ∈ w := by
  induction ws with
  | nil => cases h
  | cons w ws ih =>
    cases ws with
    | nil => exact Or.inr ⟨w, List.mem_cons_self, by simpa using h⟩
    | cons v vs =>
      rw [List.intercalate_cons_cons, List.mem_append, List.mem_append] at h
      rcases h with (h | h) | h
      · exact Or.inr ⟨w, List.mem_cons_self, h⟩
      · exact Or.inl (by simpa using h)
      · exact (ih h).imp_right fun ⟨u, hu, hc⟩ => ⟨u, List.mem_cons_of_mem _ hu, hc⟩

/-- A space is the only blank that collapsing leaves. -/
theorem eq_space_of_mem_collapse {s : List Char} {c : Char} (h : c ∈ collapse s)
    (hb : isBlank c = true) : c = ' ' := by
  rcases mem_intercalate_space h with h | ⟨w, hw, hc⟩
  · exact h
  · rw [(mem_words hw).2 c hc] at hb
    cases hb

theorem head?_collapse {s : List Char} {c : Char} (h : (collapse s).head? = some c) :
    isBlank c = false := by
  unfold collapse at h
  cases hw : words s with
  | nil => simp [hw] at h
  | cons w ws =>
    have hm : w ∈ words s := by simp [hw]
    obtain ⟨hne, hs⟩ := mem_words hm
    rw [hw] at h
    apply hs c
    obtain ⟨d, w, rfl⟩ := List.exists_cons_of_ne_nil hne
    cases ws with
    | nil => simp_all
    | cons v vs => simp_all

theorem getLast?_collapse {s : List Char} {c : Char} (h : (collapse s).getLast? = some c) :
    isBlank c = false := by
  have aux : ∀ ws : List (List Char), (∀ w ∈ ws, w ≠ [] ∧ Solid w) →
      (List.intercalate [' '] ws).getLast? = some c → isBlank c = false := by
    intro ws hws hl
    induction ws with
    | nil => cases hl
    | cons w ws ih =>
      obtain ⟨hne, hs⟩ := hws w List.mem_cons_self
      cases ws with
      | nil => exact hs c (List.mem_of_getLast? (by simpa using hl))
      | cons v vs =>
        apply ih (fun u hu => hws u (List.mem_cons_of_mem _ hu))
        obtain ⟨d, v, rfl⟩ := List.exists_cons_of_ne_nil (hws v (by simp)).1
        have hn : List.intercalate [' '] ((d :: v) :: vs) ≠ [] := by
          cases vs <;> simp
        rw [List.intercalate_cons_cons, List.getLast?_append,
          List.getLast?_eq_some_getLast hn] at hl
        rw [List.getLast?_eq_some_getLast hn]
        exact hl
  exact aux (words s) (fun _ hw => mem_words hw) h

theorem trim_collapse (s : List Char) : trim (collapse s) = collapse s :=
  trim_of_ends (fun _ => head?_collapse) (fun _ => getLast?_collapse)

/-- The pieces of a text lie in it, the first one at its start. -/
theorem infix_of_mem_splitOnP (p : Char → Bool) (s : List Char) :
    (∀ v, (s.splitOnP p).head? = some v → v <+: s) ∧ ∀ v ∈ s.splitOnP p, v <:+: s := by
  induction s with
  | nil => simp
  | cons c s ih =>
    obtain ⟨v, vs, hs⟩ := List.exists_cons_of_ne_nil (List.splitOnP_ne_nil p s)
    rw [hs] at ih
    rw [List.splitOnP_cons_eq_if_modifyHead, hs]
    have hv : v <+: s := ih.1 v rfl
    split
    · refine ⟨fun u hu => ?_, fun u hu => ?_⟩
      · rw [← Option.some.inj hu]
        exact List.nil_prefix
      · rcases List.mem_cons.mp hu with rfl | hu
        · exact List.nil_infix
        · exact List.infix_cons (ih.2 u hu)
    · have hc : c :: v <+: c :: s := (List.prefix_cons_inj c).mpr hv
      refine ⟨fun u hu => ?_, fun u hu => ?_⟩
      · rw [← Option.some.inj hu]
        exact hc
      · rcases List.mem_cons.mp hu with rfl | hu
        · exact hc.isInfix
        · exact List.infix_cons (ih.2 u (List.mem_cons_of_mem _ hu))

theorem infix_of_mem_splitOn {s part : List Char} {c : Char} (h : part ∈ s.splitOn c) : part <:+: s :=
  (infix_of_mem_splitOnP (· == c) s).2 part h

/-! ## Words with blanks around them -/

/-- Words, and a text with blanks around them and between each two of them. -/
inductive Spread : List (List Char) → List Char → Prop where
  | nil {gap} : (∀ c ∈ gap, isBlank c = true) → Spread [] gap
  | cons {w ws gap text} : (∀ c ∈ gap, isBlank c = true) → w ≠ [] → Solid w → Spread ws text →
      (∀ c, text.head? = some c → isBlank c = true) → Spread (w :: ws) (gap ++ (w ++ text))

section

variable {s m : List Char} {ws : List (List Char)}

theorem words_of_spread (h : Spread ws s) : words s = ws := by
  induction h with
  | nil hgap =>
    have hnone : words _ = words [] := words_blank_append hgap []
    rwa [List.append_nil] at hnone
  | cons hgap hne hsolid _ hcut ih =>
    rw [words_blank_append hgap, words_append hsolid hne hcut, ih]

theorem exists_spread (s : List Char) : ∃ ws, Spread ws s := by
  induction s with
  | nil => exact ⟨[], .nil (List.forall_mem_nil _)⟩
  | cons c s ih =>
    obtain ⟨ws, h⟩ := ih
    have hnone : ∀ d ∈ ([] : List Char), isBlank d = true := List.forall_mem_nil _
    by_cases hc : isBlank c = true
    · cases h with
      | nil hgap => exact ⟨[], .nil (List.forall_mem_cons.mpr ⟨hc, hgap⟩)⟩
      | cons hgap hne hsolid htext hcut =>
        exact ⟨_, .cons (List.forall_mem_cons.mpr ⟨hc, hgap⟩) hne hsolid htext hcut⟩
    · have hsolid : Solid [c] := List.forall_mem_singleton.mpr (by simpa using hc)
      by_cases hs : ∀ d, s.head? = some d → isBlank d = true
      · exact ⟨[c] :: ws, .cons hnone (List.cons_ne_nil c []) hsolid h hs⟩
      -- The character is the first one of the word that the text begins with.
      · cases h with
        | nil hgap => exact absurd (fun d hd => hgap d (List.mem_of_head? hd)) hs
        | @cons w ws gap text hgap hne hw htext hcut =>
          cases gap with
          | nil =>
            exact ⟨(c :: w) :: ws, .cons hnone (List.cons_ne_nil c w) (hsolid.append hw) htext hcut⟩
          | cons d gap =>
            refine absurd (fun e he => ?_) hs
            cases he
            exact hgap d List.mem_cons_self

theorem words_eq_iff : words s = ws ↔ Spread ws s := by
  constructor
  · rintro rfl
    obtain ⟨ws, h⟩ := exists_spread s
    rwa [words_of_spread h]
  · exact words_of_spread

/-- What has no blank lies in a text just if it lies in one of its words. -/
theorem infix_iff_of_spread (hm : Solid m) (hne : m ≠ []) (h : Spread ws s) :
    m <:+: s ↔ ∃ w ∈ ws, m <:+: w := by
  obtain ⟨d, t, rfl⟩ := List.exists_cons_of_ne_nil hne
  have hd : isBlank d = false := hm d List.mem_cons_self
  induction h with
  | nil hgap =>
    refine iff_of_false (fun hs => ?_) (by simp)
    rw [hgap d (hs.subset List.mem_cons_self)] at hd
    cases hd
  | @cons w ws gap text hgap _ _ _ hcut ih =>
    have hfirst : d :: t <:+: gap ++ (w ++ text) ↔ d :: t <:+: w ++ text := by
      rw [← infix_dropWhile ⟨d, t, rfl, hd⟩, List.dropWhile_append_of_pos hgap,
        infix_dropWhile ⟨d, t, rfl, hd⟩]
    rw [hfirst, List.infix_append_iff_ne_nil]
    simp only [List.mem_cons, exists_eq_or_imp, ← ih]
    refine ⟨fun h => ?_, fun h => h.imp_right Or.inl⟩
    rcases h with h | h | ⟨a, b, _, hb, hab, _, htext⟩
    · exact Or.inl h
    · exact Or.inr h
    -- Behind the word stands a blank, so nothing goes on from the word into the rest.
    · obtain ⟨c, b, rfl⟩ := List.exists_cons_of_ne_nil hb
      obtain ⟨r, rfl⟩ := htext
      have hblank := hcut c rfl
      rw [hm c (hab ▸ List.mem_append_right a List.mem_cons_self)] at hblank
      cases hblank

theorem infix_collapse_iff (hm : Solid m) (hne : m ≠ []) : m <:+: collapse s ↔ m <:+: s := by
  rw [infix_iff_of_spread hm hne (words_eq_iff.mp (words_collapse s)),
    infix_iff_of_spread hm hne (words_eq_iff.mp rfl)]

end

end Text

end Datagram
