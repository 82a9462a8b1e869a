import Mathlib.Data.List.Basic
import Mathlib.Order.Basic

/-! # Texts in the order of their bytes

The bytes of characters in UTF-8 are in the order of their code points, whatever stands behind them.
So texts compare as their bytes do. -/

namespace Datagram.Text

open String (utf8EncodeChar)

/-! ## Codes that keep the order of numbers -/

/-- A code of the numbers below a bound. The first bytes lie between two others, and what is written
for numbers is in their order, whatever stands behind it. -/
structure KeepsOrder (low high bound : Nat) (code : Nat → List UInt8) : Prop where
  first : ∀ v < bound, ∃ b rest, code v = b :: rest ∧ low ≤ b.toNat ∧ b.toNat < high
  lt : ∀ v w, v < w → w < bound → ∀ x y, code v ++ x < code w ++ y

/-- A number in one byte, above a base. -/
def leadByte (bound base v : Nat) : List UInt8 := [UInt8.ofNat (v % bound + base)]

/-- A code with six more bits in another byte. -/
def withTail (code : Nat → List UInt8) (v : Nat) : List UInt8 :=
  code (v / 64) ++ [UInt8.ofNat (v % 64 + 0x80)]

/-- One code below a number, another one from it on. -/
def switchAt (cut : Nat) (code code' : Nat → List UInt8) (v : Nat) : List UInt8 :=
  if v < cut then code v else code' v

theorem cons_lt_cons_of_lt {m n : Nat} (h : m < n) (hn : n < 256) (x y : List UInt8) :
    UInt8.ofNat m :: x < UInt8.ofNat n :: y := by
  rw [List.cons_lt_cons_iff, UInt8.lt_iff_toNat_lt, UInt8.toNat_ofNat', UInt8.toNat_ofNat']
  omega

theorem keepsOrder_leadByte {bound base : Nat} (h : bound + base ≤ 256) :
    KeepsOrder base (bound + base) bound (leadByte bound base) where
  first v hv := by
    refine ⟨_, [], rfl, ?_⟩
    rw [UInt8.toNat_ofNat', Nat.mod_eq_of_lt hv]
    omega
  lt v w hvw hw x y := by
    rw [leadByte, leadByte, Nat.mod_eq_of_lt (Nat.lt_trans hvw hw), Nat.mod_eq_of_lt hw]
    exact cons_lt_cons_of_lt (by omega) (by omega) x y

namespace KeepsOrder

variable {low mid mid' high cut bound : Nat} {code code' : Nat → List UInt8}

theorem withTail (h : KeepsOrder low high bound code) :
    KeepsOrder low high (64 * bound) (withTail code) where
  first v hv := by
    obtain ⟨b, rest, heq, hb⟩ := h.first (v / 64) (by omega)
    exact ⟨b, _, by rw [Text.withTail, heq, List.cons_append], hb⟩
  lt v w hvw hw x y := by
    rw [Text.withTail, Text.withTail, List.append_assoc, List.append_assoc]
    rcases Nat.lt_or_eq_of_le (Nat.div_le_div_right (c := 64) (Nat.le_of_lt hvw)) with hlt | heq
    · exact h.lt _ _ hlt (by omega) _ _
    · rw [heq]
      exact List.append_left_lt (cons_lt_cons_of_lt (by omega) (by omega) x y)

theorem switchAt (h : KeepsOrder low mid cut code) (h' : KeepsOrder mid' high bound code')
    (hlow : low ≤ mid') (hmid : mid ≤ mid') (hhigh : mid ≤ high) : KeepsOrder low high bound (switchAt cut code code') where
  first v hv := by
    rw [Text.switchAt]
    split
    · rename_i hlt
      obtain ⟨b, rest, heq, hb⟩ := h.first v hlt
      exact ⟨b, rest, heq, by omega⟩
    · obtain ⟨b, rest, heq, hb⟩ := h'.first v hv
      exact ⟨b, rest, heq, by omega⟩
  lt v w hvw hw x y := by
    rw [Text.switchAt, Text.switchAt]
    by_cases hv : v < cut
    · by_cases hwc : w < cut
      · rw [if_pos hv, if_pos hwc]
        exact h.lt v w hvw hwc x y
      · -- The first bytes of the two codes lie apart.
        obtain ⟨b, s, heq, _, hb⟩ := h.first v hv
        obtain ⟨b', s', heq', hb', _⟩ := h'.first w hw
        rw [if_pos hv, if_neg hwc, heq, heq', List.cons_append, List.cons_append,
          List.cons_lt_cons_iff, UInt8.lt_iff_toNat_lt]
        exact Or.inl (by omega)
    · rw [if_neg hv, if_neg (by omega)]
      exact h'.lt v w hvw hw x y

end KeepsOrder

/-! ## Characters and texts -/

/-- The code of UTF-8, in one byte to four. -/
def utf8Code : Nat → List UInt8 :=
  switchAt 0x80 (leadByte 0x80 0) <|
  switchAt 0x800 (withTail (leadByte 0x20 0xC0)) <|
  switchAt 0x10000 (withTail (withTail (leadByte 0x10 0xE0)))
    (withTail (withTail (withTail (leadByte 8 0xF0))))

theorem keepsOrder_utf8Code : KeepsOrder 0 0xF8 0x200000 utf8Code := by
  have one : KeepsOrder 0 0x80 0x80 _ := keepsOrder_leadByte (by decide)
  have two : KeepsOrder 0xC0 0xE0 0x20 _ := keepsOrder_leadByte (by decide)
  have three : KeepsOrder 0xE0 0xF0 0x10 _ := keepsOrder_leadByte (by decide)
  have four : KeepsOrder 0xF0 0xF8 8 _ := keepsOrder_leadByte (by decide)
  have fromThree := three.withTail.withTail.switchAt four.withTail.withTail.withTail
    (by decide) (by decide) (by decide)
  have fromTwo := two.withTail.switchAt fromThree (by decide) (by decide) (by decide)
  exact one.switchAt fromTwo (by decide) (by decide) (by decide)

theorem utf8EncodeChar_eq (c : Char) : utf8EncodeChar c = utf8Code c.val.toNat := by
  simp only [utf8EncodeChar, utf8Code, switchAt, leadByte, withTail, Nat.div_div_eq_div_mul,
    ← Nat.lt_succ_iff, List.cons_append, List.nil_append]
  refine ite_congr rfl (fun h => ?_) (fun _ => rfl)
  rw [Nat.mod_eq_of_lt h, Nat.add_zero]

theorem codePoint_lt (c : Char) : c.val.toNat < 0x200000 := by
  have h := c.valid
  simp only [UInt32.isValidChar, Nat.isValidChar] at h
  omega

/-- The bytes of a text in UTF-8. -/
def utf8 (s : List Char) : List UInt8 := s.flatMap utf8EncodeChar

theorem utf8_lt {s t : List Char} (h : s < t) : utf8 s < utf8 t := by
  induction s generalizing t with
  | nil =>
    obtain ⟨d, t, rfl⟩ : ∃ d t', t = d :: t' := by
      cases t with
      | nil => exact absurd h (List.lt_irrefl _)
      | cons d t => exact ⟨d, t, rfl⟩
    obtain ⟨b, rest, heq, _⟩ := keepsOrder_utf8Code.first d.val.toNat (codePoint_lt d)
    rw [utf8, utf8, List.flatMap_nil, List.flatMap_cons, utf8EncodeChar_eq, heq, List.cons_append]
    exact List.nil_lt_cons _ _
  | cons c s ih =>
    cases t with
    | nil => exact absurd h (List.not_lt_nil _)
    | cons d t =>
      rw [utf8, utf8, List.flatMap_cons, List.flatMap_cons]
      rcases List.cons_lt_cons_iff.mp h with hlt | ⟨rfl, hlt⟩
      · rw [utf8EncodeChar_eq, utf8EncodeChar_eq]
        exact keepsOrder_utf8Code.lt _ _ hlt (codePoint_lt d) _ _
      · exact List.append_left_lt (ih hlt)

theorem utf8_toList (s : String) : utf8 s.toList = s.toUTF8.data.toList := by
  rw [String.toUTF8_eq_toByteArray, ← String.utf8Encode_toList, List.utf8Encode,
    List.data_toByteArray, List.toList_toArray, utf8]

/-- Texts are in the order of their bytes. -/
theorem bytes_lt_iff (s t : String) : s.toUTF8.data.toList < t.toUTF8.data.toList ↔ s < t := by
  rw [← utf8_toList, ← utf8_toList]
  constructor
  · intro h
    rcases Std.lt_trichotomy s t with hlt | rfl | hgt
    · exact hlt
    · exact absurd h (List.lt_irrefl _)
    · exact absurd (utf8_lt hgt) (List.lt_asymm h)
  · exact utf8_lt

end Datagram.Text
