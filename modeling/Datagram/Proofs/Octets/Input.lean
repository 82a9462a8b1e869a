import Datagram.Codec.Literal
import Datagram.Octets
import Datagram.Proofs.Codec.Grammar
import Datagram.Proofs.Octets.Pairs

/-! # Octets read from a text

A byte is spelled by its two digits in either case, behind a mark or without one, and bytes are spelled
one after the other with blanks between them. There are two readers of such texts: one reads each word
for itself, the other joins the digits of all words and cuts them into pairs. Both give the bytes
back. -/

namespace Datagram

open Datagram.Text

namespace Octets

/-- The two digits of a byte, each in either case. -/
def Pair (b : UInt8) (ds : List Char) : Prop := ds.map Char.toUpper = digits b

/-- The words for a byte. -/
inductive Word (b : UInt8) : List Char → Prop where
  | plain {ds} : Pair b ds → Word b ds
  | marked {mark ds} : Mark 16 mark → Pair b ds → Word b (mark ++ ds)

/-- The texts for some bytes: blanks, a word for the first byte, and a text for the other bytes that
does not go on with this word. -/
inductive Spelled : List UInt8 → List Char → Prop where
  | nil {gap} : (∀ c ∈ gap, isBlank c = true) → Spelled [] gap
  | cons {b bytes gap word text} : (∀ c ∈ gap, isBlank c = true) → Word b word →
      Spelled bytes text → (∀ c, text.head? = some c → isBlank c = true) →
      Spelled (b :: bytes) (gap ++ (word ++ text))

/-! ## Words -/

section Words

variable {b : UInt8} {ds word : List Char}

theorem pair_digits (b : UInt8) : Pair b (digits b) := by
  have hupper : Char.toUpper ∘ Char.toUpper = Char.toUpper := funext toUpper_toUpper
  rw [Pair, digits, zeroPadded, List.leftpad, List.map_append, List.map_replicate, upperHex,
    List.map_map, hupper]
  rfl

theorem Pair.ofDigits? (h : Pair b ds) : Text.ofDigits? 16 ds = some b.toNat := by
  rw [← ofDigits?_map_toUpper, h]
  exact ofDigits?_upperHex 2 b.toNat

theorem Pair.length (h : Pair b ds) : ds.length = 2 := by
  have hshort : (upperHex b.toNat).length ≤ 2 := by
    rw [upperHex, List.length_map]
    exact (Nat.length_toDigits_le_iff (by decide) (by decide)).mpr b.toNat_lt
  rw [← ds.length_map Char.toUpper, h, digits, zeroPadded, List.length_leftpad,
    Nat.max_eq_left hshort]

theorem Pair.solid (h : Pair b ds) : ds ≠ [] ∧ Solid ds :=
  ⟨(ofDigits?_eq_some.mp h.ofDigits?).1, solid_of_ofDigits? h.ofDigits?⟩

theorem Pair.natural (h : Pair b ds) : Natural 16 ds b.toNat :=
  .plain ((ofDigits?_eq_some_iff (by decide)).mp h.ofDigits?)

theorem Pair.not_marked (h : Pair b ds) : afterHexMark? ds = none :=
  no_hexMark_of_ofDigits? h.ofDigits?

theorem Word.solid (h : Word b word) : word ≠ [] ∧ Solid word := by
  cases h with
  | plain hds => exact hds.solid
  | marked hmark hds =>
    constructor
    · exact List.append_ne_nil_of_right_ne_nil _ hds.solid.1
    · exact Solid.append (solid_of_mark hmark) hds.solid.2

theorem Word.octet (h : Word b word) : Literal.Octet word b := by
  cases h with
  | plain hds => exact .plain hds.natural
  | marked hmark hds => exact .marked hmark hds.natural

theorem dropLowerMarks_eq_self (h : afterHexMark? ds = none) : dropLowerMarks ds = ds := by
  unfold dropLowerMarks
  split
  · cases h
  · rfl

theorem dropUpperMarks_eq_self (h : afterHexMark? ds = none) : dropUpperMarks ds = ds := by
  unfold dropUpperMarks
  split
  · cases h
  · rfl

/-- Joining the words keeps the digits of each. -/
theorem pair_of_word (h : Word b word) : Pair b (dropUpperMarks (dropLowerMarks word)) := by
  cases h with
  | plain hds =>
    rwa [dropLowerMarks_eq_self hds.not_marked, dropUpperMarks_eq_self hds.not_marked]
  | @marked mark ds hmark hds =>
    have hlower := dropLowerMarks_eq_self hds.not_marked
    have hupper := dropUpperMarks_eq_self hds.not_marked
    cases hmark with
    | hex =>
      have hdrop : dropLowerMarks ('0' :: 'x' :: ds) = ds := hlower
      rwa [List.cons_append, List.cons_append, List.nil_append, hdrop, hupper]
    | upperHex =>
      have hdrop : dropUpperMarks ('0' :: 'X' :: ds) = ds := hupper
      have hkeep : dropLowerMarks ('0' :: 'X' :: ds) = '0' :: 'X' :: ds := rfl
      rwa [List.cons_append, List.cons_append, List.nil_append, hkeep, hdrop]

end Words

/-! ## Texts -/

section Texts

variable {bytes : List UInt8} {text : List Char} {ws : List (List Char)}

/-- The words of a text for some bytes are words for these, one for each. -/
theorem Spelled.words (h : Spelled bytes text) : List.Forall₂ Word bytes (Text.words text) := by
  induction h with
  | nil hgap =>
    have hnone : Text.words _ = Text.words [] := words_blank_append hgap []
    rw [List.append_nil] at hnone
    rw [hnone]
    exact .nil
  | cons hgap hword _ hcut ih =>
    rw [words_blank_append hgap, words_append hword.solid.2 hword.solid.1 hcut]
    exact .cons hword ih

/-- One reader takes each word for itself. -/
theorem octets_of_spelled (h : Spelled bytes text) : Literal.octets text = .ok bytes :=
  Literal.octets_eq_ok_iff.mpr (h.words.flip.imp fun _ _ hword => Word.octet hword)

theorem Pairs.append {b : UInt8} {ds rest : List Char} (h : Pair b ds) (hrest : Pairs bytes rest) :
    Pairs (b :: bytes) (ds ++ rest) := by
  have hdigits := digits_of_ofDigits? (by decide) h.ofDigits?
  obtain ⟨c, d, rfl⟩ := List.length_eq_two.mp h.length
  obtain ⟨x, y, hx, hy, hb⟩ := digits_pair_iff.mp hdigits
  have hpairs := Pairs.digits hx hy hrest
  rwa [← hb, UInt8.ofNat_toNat] at hpairs

/-- The joined digits are those of the bytes, two for each of them. -/
theorem pairs_of_words (h : List.Forall₂ Word bytes ws) :
    Pairs bytes (ws.flatMap fun w => dropUpperMarks (dropLowerMarks w)) := by
  induction h with
  | nil => exact .nil
  | cons hword _ ih => exact .append (pair_of_word hword) ih

theorem ofInput_of_spelled (h : Spelled bytes text) : ofInput text = .ok bytes :=
  ofInput_eq_ok_iff.mpr (pairs_of_words h.words)

theorem Spelled.cons_blank {c : Char} (hc : isBlank c = true) (h : Spelled bytes text) :
    Spelled bytes (c :: text) := by
  cases h with
  | nil hgap => exact .nil (List.forall_mem_cons.mpr ⟨hc, hgap⟩)
  | cons hgap hword htext hcut =>
    rw [← List.cons_append]
    exact .cons (List.forall_mem_cons.mpr ⟨hc, hgap⟩) hword htext hcut

/-- What is printed for some bytes is a text for them, also in front of blanks. -/
theorem spelled_dump (bytes : List UInt8) {tail : List Char} (h : ∀ c ∈ tail, isBlank c = true) :
    Spelled bytes (dump bytes ++ tail) := by
  induction bytes with
  | nil => exact .nil h
  | cons b bytes ih =>
    have hword : Word b (digits b) := .plain (pair_digits b)
    have hnone : ∀ c ∈ ([] : List Char), isBlank c = true := by simp
    cases bytes with
    | nil =>
      have hcut : ∀ c, tail.head? = some c → isBlank c = true := fun c hc =>
        h c (List.mem_of_head? hc)
      simpa [dump] using Spelled.cons hnone hword (.nil h) hcut
    | cons c bytes =>
      have hcut : ∀ d, (' ' :: (dump (c :: bytes) ++ tail)).head? = some d → isBlank d = true := by
        simp [isBlank_space]
      have hrest := ih.cons_blank isBlank_space
      simpa [dump] using Spelled.cons hnone hword hrest hcut

/-- Texts that are joined with a space are a text for the bytes of all of them. -/
theorem Spelled.append_space {more : List UInt8} {rest : List Char} (h : Spelled bytes text)
    (hrest : Spelled more rest) : Spelled (bytes ++ more) (text ++ ' ' :: rest) := by
  induction h with
  | @nil gap hgap =>
    induction gap with
    | nil => exact hrest.cons_blank isBlank_space
    | cons c gap ih =>
      rw [List.forall_mem_cons] at hgap
      exact (ih hgap.2).cons_blank hgap.1
  | @cons b bytes gap word text hgap hword _ hcut ih =>
    rw [List.append_assoc, List.append_assoc]
    refine .cons hgap hword ih ?_
    intro c hc
    cases text with
    | nil => exact Option.some.inj hc ▸ isBlank_space
    | cons d text => exact hcut c hc

theorem octets_dump (bytes : List UInt8) : Literal.octets (dump bytes) = .ok bytes := by
  have h := octets_of_spelled (spelled_dump bytes (List.forall_mem_nil _))
  rwa [List.append_nil] at h

theorem spelled_intercalate {parts : List (List UInt8)} {texts : List (List Char)}
    (h : List.Forall₂ Spelled parts texts) :
    Spelled parts.flatten (List.intercalate [' '] texts) := by
  induction h with
  | nil => exact .nil (by simp)
  | @cons part text parts texts hpart hparts ih =>
    cases hparts with
    | nil => simpa using hpart
    | cons _ _ =>
      rw [List.intercalate_cons_cons, List.append_assoc, List.singleton_append, List.flatten_cons]
      exact hpart.append_space ih

end Texts

end Octets

end Datagram
