import Datagram.Idl.Import
import Datagram.Proofs.Idl.Comment

/-! # Bits of a storage unit

A storage unit is written as cells, one behind the other, which take all of its bits: the members
that are exported, at their own bits, and padding where no member lies. -/

namespace Datagram.Idl

open Datagram.Text

/-- Bits of a storage unit with one name. -/
structure Cell where
  name : String
  start : Nat
  width : Nat
  description : String

/-- Bits from a number on, as an import writes them. -/
def bitsFrom (name : String) (start width : Nat) : BitMember :=
  if width = 1 then .single name (UInt32.ofNat start) else .ofRange name start (start + width - 1)

/-- The bit member that a cell becomes. -/
def Cell.bit (c : Cell) : BitMember :=
  { bitsFrom c.name c.start c.width with description := noteText c.description }

/-- The cell of a bit member. -/
def cellOf (b : BitMember) : Cell := ⟨identifier b.name, b.span.first, b.span.size, b.description⟩

/-- Padding, with the number of its first bit in its name. -/
def padCell (start width : Nat) : Cell :=
  ⟨"_pad" ++ String.ofList (decimal start), start, width, ""⟩

/-- Padding for the bits from one number to another. -/
def gapCells (start stop : Nat) : List Cell :=
  if start < stop then [padCell start (stop - start)] else []

/-- The cells of a storage unit from a bit number on. -/
def cells (width start : Nat) : List BitMember → List Cell
  | [] => gapCells start width
  | b :: bs =>
    gapCells start b.span.first ++ cellOf b :: cells width (b.span.last + 1) bs

theorem mem_cells {width start : Nat} {bs : List BitMember} {c : Cell}
    (h : c ∈ cells width start bs) : (∃ b ∈ bs, c = cellOf b) ∨ ∃ n w, c = padCell n w := by
  have hgap : ∀ {n stop}, c ∈ gapCells n stop → ∃ n w, c = padCell n w := by
    intro n stop hc
    by_cases hlt : n < stop
    · rw [gapCells, if_pos hlt] at hc
      exact ⟨n, _, List.mem_singleton.mp hc⟩
    · rw [gapCells, if_neg hlt] at hc
      cases hc
  induction bs generalizing start with
  | nil => exact Or.inr (hgap h)
  | cons b bs ih =>
    rcases List.mem_append.mp h with h | h
    · exact Or.inr (hgap h)
    · rcases List.mem_cons.mp h with rfl | h
      · exact Or.inl ⟨b, List.mem_cons_self, rfl⟩
      · refine (ih h).imp_left ?_
        rintro ⟨b', hb', rfl⟩
        exact ⟨b', List.mem_cons_of_mem _ hb', rfl⟩

theorem cellOf_mem_cells {width start : Nat} {bs : List BitMember} {b : BitMember} (h : b ∈ bs) :
    cellOf b ∈ cells width start bs := by
  induction bs generalizing start with
  | nil => cases h
  | cons c bs ih =>
    rw [cells]
    rcases List.mem_cons.mp h with rfl | h
    · exact List.mem_append_right _ List.mem_cons_self
    · exact List.mem_append_right _ (List.mem_cons_of_mem _ (ih h))

/-! ## Members in ascending order -/

/-- Members from a bit number on, each behind the one before it and all of them below a width. -/
def Ascending (width : Nat) : Nat → List BitMember → Prop
  | _, [] => True
  | start, b :: bs =>
    start ≤ b.span.first ∧ b.span.last < width ∧ Ascending width (b.span.last + 1) bs

theorem ascending_membersFrom (width start : Nat) (bs : List BitMember) :
    Ascending width start (membersFrom start width bs) := by
  induction bs generalizing start with
  | nil => trivial
  | cons b bs ih =>
    by_cases hb : start ≤ b.span.first ∧ b.span.last < width
    · rw [membersFrom, if_pos hb]
      exact ⟨hb.1, hb.2, ih _⟩
    · rw [membersFrom, if_neg hb]
      exact ih start

theorem membersFrom_of_ascending {width start : Nat} {bs : List BitMember}
    (h : Ascending width start bs) : membersFrom start width bs = bs := by
  induction bs generalizing start with
  | nil => rfl
  | cons b bs ih =>
    obtain ⟨hs, hl, hbs⟩ := h
    rw [membersFrom, if_pos ⟨hs, hl⟩, ih hbs]

theorem mem_membersFrom {start width : Nat} {bs : List BitMember} {b : BitMember}
    (h : b ∈ membersFrom start width bs) : b ∈ bs := by
  induction bs generalizing start with
  | nil => cases h
  | cons c bs ih =>
    by_cases hc : start ≤ c.span.first ∧ c.span.last < width
    · rw [membersFrom, if_pos hc] at h
      rcases List.mem_cons.mp h with rfl | h
      · exact List.mem_cons_self
      · exact List.mem_cons_of_mem _ (ih h)
    · rw [membersFrom, if_neg hc] at h
      exact List.mem_cons_of_mem _ (ih h)

/-- A member that is left out ends behind the width or begins on one that is kept. -/
theorem kept_or_covered {start width : Nat} {bs : List BitMember}
    (hs : bs.Pairwise fun a b => a.span.first ≤ b.span.first) {b : BitMember} (h : b ∈ bs)
    (hb : start ≤ b.span.first) :
    b ∈ membersFrom start width bs ∨ width ≤ b.span.last ∨
      ∃ k ∈ membersFrom start width bs,
        k.span.first ≤ b.span.first ∧ b.span.first ≤ k.span.last := by
  induction bs generalizing start with
  | nil => cases h
  | cons c bs ih =>
    obtain ⟨hle, hbs⟩ := List.pairwise_cons.mp hs
    by_cases hc : start ≤ c.span.first ∧ c.span.last < width
    · rw [membersFrom, if_pos hc]
      rcases List.mem_cons.mp h with rfl | h
      · exact Or.inl List.mem_cons_self
      -- What begins on the kept member is covered by it; the rest is chosen from behind it.
      · by_cases hnext : c.span.last + 1 ≤ b.span.first
        · rcases ih hbs h hnext with hk | hk | ⟨k, hk, hcover⟩
          · exact Or.inl (List.mem_cons_of_mem _ hk)
          · exact Or.inr (Or.inl hk)
          · exact Or.inr (Or.inr ⟨k, List.mem_cons_of_mem _ hk, hcover⟩)
        · exact Or.inr (Or.inr ⟨c, List.mem_cons_self, hle b h, by omega⟩)
    · rw [membersFrom, if_neg hc]
      rcases List.mem_cons.mp h with rfl | h
      · exact Or.inr (Or.inl (Nat.le_of_not_lt fun hlt => hc ⟨hb, hlt⟩))
      · exact ih hbs h hb

theorem Ascending.first_ge {width start : Nat} {bs : List BitMember}
    (h : Ascending width start bs) : ∀ b ∈ bs, start ≤ b.span.first := by
  induction bs generalizing start with
  | nil => simp
  | cons b bs ih =>
    intro c hc
    rcases List.mem_cons.mp hc with rfl | hc
    · exact h.1
    · have := ih h.2.2 c hc
      have := b.span.first_le_last
      have := h.1
      omega

theorem Ascending.pairwise {width start : Nat} {bs : List BitMember}
    (h : Ascending width start bs) : bs.Pairwise fun a b => a.span.first ≤ b.span.first := by
  induction bs generalizing start with
  | nil => exact List.Pairwise.nil
  | cons b bs ih =>
    refine List.pairwise_cons.mpr ⟨fun c hc => ?_, ih h.2.2⟩
    have := h.2.2.first_ge c hc
    have := b.span.first_le_last
    omega

/-! ## Cells take all bits -/

/-- Cells from one bit number to another, each behind the one before it. -/
def Tiles : Nat → Nat → List Cell → Prop
  | start, stop, [] => start = stop
  | start, stop, c :: cs => c.start = start ∧ 0 < c.width ∧ Tiles (start + c.width) stop cs

theorem Tiles.append {start mid stop : Nat} {cs ds : List Cell} (h : Tiles start mid cs)
    (h' : Tiles mid stop ds) : Tiles start stop (cs ++ ds) := by
  induction cs generalizing start with
  | nil =>
    obtain rfl : start = mid := h
    exact h'
  | cons c cs ih => exact ⟨h.1, h.2.1, ih h.2.2⟩

theorem Tiles.le {start stop : Nat} {cs : List Cell} (h : Tiles start stop cs) : start ≤ stop := by
  induction cs generalizing start with
  | nil => exact Nat.le_of_eq h
  | cons c cs ih => exact Nat.le_trans (Nat.le_add_right _ _) (ih h.2.2)

theorem Tiles.bounds {start stop : Nat} {cs : List Cell} (h : Tiles start stop cs) :
    ∀ c ∈ cs, 0 < c.width ∧ c.start + c.width ≤ stop := by
  induction cs generalizing start with
  | nil => simp
  | cons c cs ih =>
    intro d hd
    rcases List.mem_cons.mp hd with rfl | hd
    · have := h.2.2.le
      have := h.1
      exact ⟨h.2.1, by omega⟩
    · exact ih h.2.2 d hd

theorem tiles_gapCells {start stop : Nat} (h : start ≤ stop) :
    Tiles start stop (gapCells start stop) := by
  by_cases hlt : start < stop
  · rw [gapCells, if_pos hlt]
    exact ⟨rfl, Nat.sub_pos_of_lt hlt, Nat.add_sub_cancel' h⟩
  · rw [gapCells, if_neg hlt]
    exact Nat.le_antisymm h (Nat.le_of_not_lt hlt)

theorem tiles_cells {width start : Nat} {bs : List BitMember} (h : Ascending width start bs)
    (hs : start ≤ width) : Tiles start width (cells width start bs) := by
  induction bs generalizing start with
  | nil => exact tiles_gapCells hs
  | cons b bs ih =>
    obtain ⟨hfirst, hlast, hbs⟩ := h
    have hle := b.span.first_le_last
    have hsize := b.span.first_add_size
    have hpos : 0 < b.span.size := by omega
    refine (tiles_gapCells hfirst).append ⟨rfl, hpos, ?_⟩
    show Tiles (b.span.first + b.span.size) width _
    rw [hsize]
    exact ih hbs hlast

theorem cells_ne_nil {width start : Nat} {b : BitMember} {bs : List BitMember} :
    cells width start (b :: bs) ≠ [] := by
  simp [cells]

/-! ## Names -/

theorem word_pad (n : Nat) : Word ("_pad" ++ String.ofList (decimal n)).toList := by
  have hpad : Word "_pad".toList := Word.of_all (by decide) (by decide)
  have hn : (String.ofList (decimal n)).toList = decimal n := String.toList_ofList
  rw [String.toList_append, hn]
  exact hpad.append (word_decimal n)

theorem word_of_mem_cells {width start : Nat} {bs : List BitMember} {c : Cell}
    (h : c ∈ cells width start bs) : Word c.name.toList := by
  rcases mem_cells h with ⟨b, _, rfl⟩ | ⟨n, w, rfl⟩
  · exact word_identifier b.name
  · exact word_pad n

/-! ## The bits of a cell -/

theorem between_of_le {a b : Nat} (h : a ≤ b) (hb : b < 64) :
    (Span.between a b).first = a ∧ (Span.between a b).last = b := by
  simp only [Span.between]
  omega

theorem number?_bit {n : Nat} (h : n < 64) :
    naturalBelow? 10 UInt32.size (trim (decimal n)) = some n := by
  rw [trim_of_solid (solid_decimal n)]
  refine naturalBelow?_of_ofDigits? (ofDigits?_decimal n) ?_
  simp only [UInt32.size]
  omega

theorem span_ofRange (name : String) {a b : Nat} (h : a ≤ b) (hb : b < 64) :
    (BitMember.ofRange name a b).span = Span.between a b := by
  have hdigits : ∀ c ∈ decimal a, decide (c ≠ ':') = true := by
    intro c hc
    rw [decide_eq_true_eq]
    rintro rfl
    exact (word_decimal a).not_mem (by decide) hc
  have hcolon : ∀ c, (':' :: decimal b).head? = some c → decide (c ≠ ':') = false := by
    intro c hc
    cases hc
    decide
  have hread : Span.read? (decimal a ++ ':' :: decimal b) = some (Span.between a b) := by
    unfold Span.read?
    simp only [dropWhile_exact hdigits hcolon, takeWhile_exact hdigits hcolon,
      number?_bit (Nat.lt_of_le_of_lt h hb), number?_bit hb]
  have hrange : (BitMember.ofRange name a b).range.bind (fun text => Span.read? text.toList) =
      some (Span.between a b) := by
    simp [BitMember.ofRange, hread]
  rw [BitMember.span, hrange]

theorem span_single (name : String) {n : Nat} (h : n < 64) :
    (BitMember.single name (UInt32.ofNat n)).span = Span.between n n := by
  have hn : (UInt32.ofNat n).toNat = n := by
    rw [UInt32.toNat_ofNat']
    omega
  have hrange : (BitMember.single name (UInt32.ofNat n)).range = none := rfl
  rw [BitMember.span, hrange]
  simp only [Option.bind_none, BitMember.single, Option.getD_some, hn]

theorem name_bitsFrom (name : String) (start width : Nat) :
    (bitsFrom name start width).name = name := by
  unfold bitsFrom
  split <;> rfl

theorem Cell.name_bit (c : Cell) : c.bit.name = c.name := by
  rw [bit]
  exact name_bitsFrom c.name c.start c.width

theorem Cell.description_bit (c : Cell) : c.bit.description = noteText c.description := by
  rw [bit]

theorem span_congr {b b' : BitMember} (hr : b.range = b'.range) (hb : b.bit = b'.bit) :
    b.span = b'.span := by
  rw [BitMember.span, BitMember.span, hr, hb]

theorem span_bitsFrom (name : String) {start width : Nat} (hw : 0 < width)
    (hb : start + width ≤ 64) : (bitsFrom name start width).span =
      Span.between start (start + width - 1) := by
  by_cases h : width = 1
  · rw [bitsFrom, if_pos h, span_single name (by omega), h, Nat.add_sub_cancel]
  · rw [bitsFrom, if_neg h, span_ofRange name (by omega) (by omega)]

/-- A cell keeps its bits. -/
theorem Cell.span_bit {c : Cell} (hw : 0 < c.width) (hb : c.start + c.width ≤ 64) :
    c.bit.span.first = c.start ∧ c.bit.span.last = c.start + c.width - 1 := by
  have hrange : c.bit.range = (bitsFrom c.name c.start c.width).range := by rw [bit]
  have hbit : c.bit.bit = (bitsFrom c.name c.start c.width).bit := by rw [bit]
  rw [span_congr hrange hbit, span_bitsFrom c.name hw hb]
  exact between_of_le (by omega) (by omega)

end Datagram.Idl
