import Datagram.Idl.Export
import Datagram.Proofs.Text.Numeral
import Mathlib.Data.List.DropRight

/-! # Words of a line

Names are written as words, which have none of the signs that part a line. Words with a space
between them are read one by one. -/

namespace Datagram.Idl

open Datagram.Text

/-! ## Characters of words -/

/-- One or more letters, digits and underscores. -/
structure Word (s : List Char) : Prop where
  nonempty : s ≠ []
  chars : ∀ c ∈ s, isWordChar c = true

theorem Word.of_all {s : List Char} (hne : s ≠ []) (h : s.all isWordChar = true) : Word s :=
  ⟨hne, List.all_eq_true.mp h⟩

theorem Word.not_mem {s : List Char} (h : Word s) {c : Char} (hc : isWordChar c = false) :
    c ∉ s := by
  intro hmem
  rw [h.chars c hmem] at hc
  cases hc

theorem graphic_of_isWordChar {c : Char} (h : isWordChar c = true) :
    33 ≤ c.toNat ∧ c.toNat ≤ 126 := by
  have hranges : isWordChar c = ('A'.val ≤ c.val ∧ c.val ≤ 'Z'.val ||
      ('a'.val ≤ c.val && c.val ≤ 'z'.val) || ('0'.val ≤ c.val && c.val ≤ '9'.val) || c = '_') := rfl
  simp only [hranges, Bool.or_eq_true, Bool.and_eq_true, decide_eq_true_eq,
    UInt32.le_iff_toNat_le, Char.toNat_val, Char.reduceToNat] at h
  rcases h with ((h | h) | h) | rfl
  · omega
  · omega
  · omega
  · decide

theorem isBlank_of_isWordChar {c : Char} (h : isWordChar c = true) : isBlank c = false :=
  isBlank_of_graphic (graphic_of_isWordChar h).1 (graphic_of_isWordChar h).2

theorem isGap_of_isWordChar {c : Char} (h : isWordChar c = true) : isGap c = false := by
  have hc := (graphic_of_isWordChar h).1
  simp only [isGap, Bool.or_eq_false_iff, decide_eq_false_iff_not]
  constructor
  · rintro rfl
    exact absurd hc (by decide)
  · rintro rfl
    exact absurd hc (by decide)

theorem Word.append {s t : List Char} (hs : Word s) (ht : Word t) : Word (s ++ t) where
  nonempty := by
    intro h
    exact hs.nonempty (List.append_eq_nil_iff.mp h).1
  chars := by
    intro c hc
    rcases List.mem_append.mp hc with h | h
    · exact hs.chars c h
    · exact ht.chars c h

theorem word_underscore : Word ['_'] := ⟨by simp, by simp [isWordChar]⟩

theorem word_struct : Word "struct".toList := Word.of_all (by decide) (by decide)

theorem word_decimal (n : Nat) : Word (decimal n) where
  nonempty := Nat.toDigits_ne_nil
  chars := by
    intro c hc
    have := isDigit_of_mem_decimal hc
    simp [isWordChar, Char.isAlphanum, this]

/-! ## Identifiers -/

theorem word_identifier (name : String) : Word (identifier name).toList := by
  unfold identifier
  split
  · exact Word.of_all (by decide) (by decide)
  · rename_i hne
    rw [String.toList_ofList]
    constructor
    · simpa using hne
    · intro c hc
      obtain ⟨d, _, rfl⟩ := List.mem_map.mp hc
      split
      · assumption
      · rfl

theorem identifier_of_word {name : String} (h : Word name.toList) : identifier name = name := by
  have hne : name ≠ "" := by
    rintro rfl
    exact h.nonempty rfl
  have hmap : name.toList.map (fun c => if isWordChar c then c else '_') = name.toList := by
    have hid : name.toList.map (fun c => if isWordChar c then c else '_') = name.toList.map id :=
      List.map_congr_left fun c hc => if_pos (h.chars c hc)
    rw [hid, List.map_id]
  rw [identifier, if_neg hne, hmap, String.ofList_toList]

theorem identifier_identifier (name : String) : identifier (identifier name) = identifier name :=
  identifier_of_word (word_identifier name)

theorem identifier_ne_empty (name : String) : identifier name ≠ "" := fun h =>
  (word_identifier name).nonempty (String.toList_eq_nil_iff.mpr h)

/-! ## Gaps -/

/-- Spaces and tabs. -/
def Gap (s : List Char) : Prop := ∀ c ∈ s, isGap c = true

theorem gap_space : Gap [' '] := by simp [Gap, isGap]

theorem isGap_cases {c : Char} (h : isGap c = true) : c = ' ' ∨ c = '\t' := by
  simpa [isGap] using h

theorem Word.inName {s : List Char} (h : Word s) : ∀ c ∈ s, (isWordChar c || isGap c) = true := by
  intro c hc
  rw [h.chars c hc, Bool.true_or]

theorem Gap.inName {s : List Char} (h : Gap s) : ∀ c ∈ s, (isWordChar c || isGap c) = true := by
  intro c hc
  rw [h c hc, Bool.or_true]

theorem skipGap_gap_append {gap : List Char} (h : Gap gap) (s : List Char) :
    skipGap (gap ++ s) = skipGap s := List.dropWhile_append_of_pos h

theorem skipGap_skipGap (s : List Char) : skipGap (skipGap s) = skipGap s :=
  List.dropWhile_idempotent isGap s

theorem exists_gap (s : List Char) : ∃ gap, Gap gap ∧ s = gap ++ skipGap s :=
  ⟨s.takeWhile isGap, fun _ hc => List.mem_takeWhile_imp hc, List.takeWhile_append_dropWhile.symm⟩

theorem skipGap_of_head {s : List Char} (h : ∀ c, s.head? = some c → isGap c = false) :
    skipGap s = s := dropWhile_exact (s := []) (by simp) h

theorem skipGap_space (s : List Char) : skipGap (' ' :: s) = skipGap s := rfl

theorem Word.skipGap_append {s : List Char} (h : Word s) (t : List Char) :
    skipGap (s ++ t) = s ++ t := by
  apply skipGap_of_head
  intro c hc
  cases s with
  | nil => exact absurd rfl h.nonempty
  | cons d s =>
    cases hc
    exact isGap_of_isWordChar (h.chars c List.mem_cons_self)

/-- The words that a gap parts. -/
def gapWords (s : List Char) : List (List Char) := (s.splitOnP isGap).filter (!·.isEmpty)

theorem gapWords_word {s : List Char} (h : Word s) : gapWords s = [s] := by
  rw [gapWords, List.splitOnP_eq_singleton fun c hc => isGap_of_isWordChar (h.chars c hc)]
  simp [h.nonempty]

theorem gapWords_gap_append {gap : List Char} (h : Gap gap) (s : List Char) :
    gapWords (gap ++ s) = gapWords s := parts_delimiters_append h s

theorem gapWords_of_gap {s : List Char} (h : Gap s) : gapWords s = [] := by
  have hparts := gapWords_gap_append h []
  rwa [List.append_nil] at hparts

theorem gapWords_append_gap {s gap : List Char} (h : Word s) (hgap : Gap gap) (hne : gap ≠ [])
    (t : List Char) : gapWords (s ++ (gap ++ t)) = s :: gapWords t := by
  have hhead : ∀ c, (gap ++ t).head? = some c → isGap c = true := by
    obtain ⟨d, gap, rfl⟩ := List.exists_cons_of_ne_nil hne
    intro c hc
    exact Option.some.inj hc ▸ hgap d List.mem_cons_self
  have hsplit : gapWords (s ++ (gap ++ t)) = s :: gapWords (gap ++ t) :=
    parts_append (fun c hc => isGap_of_isWordChar (h.chars c hc)) h.nonempty hhead
  rw [hsplit, gapWords_gap_append hgap]

theorem gapWords_word_gap {s gap : List Char} (h : Word s) (hgap : Gap gap) :
    gapWords (s ++ gap) = [s] := by
  by_cases hne : gap = []
  · rw [hne, List.append_nil, gapWords_word h]
  · have hsplit := gapWords_append_gap h hgap hne []
    rwa [List.append_nil] at hsplit

end Datagram.Idl
