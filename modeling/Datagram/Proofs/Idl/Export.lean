import Datagram.Proofs.Idl.Group
import Datagram.Proofs.Idl.Source

/-! # The document of an exported catalogue

Every line that an export writes is read as what it was written for, so the document that is parsed
from it is known: the header, a struct for each component and one for each message. -/

namespace Datagram.Idl

open Datagram.Text

/-! ## Fields -/

/-- The bytes that a field without a width of its own is written as. -/
def byteName (f : Datagram.Field) (i : Nat) : String :=
  identifier f.name ++ "_" ++ String.ofList (decimal i)

/-- The description of a byte of a field; the first one has the field's. -/
def byteDescription (f : Datagram.Field) (i : Nat) : String := if i = 0 then f.description else ""

/-- The members that a field is written as. -/
def exportedMembers (f : Datagram.Field) : List Member :=
  if f.isReference then []
  else match f.type with
    | .scalar s =>
      match exportedBits f with
      | [] => [writtenMember s (identifier f.name) none f.description]
      | b :: bs => (cells s.bits 0 (b :: bs)).map (cellMember s)
    | _ => (List.range f.byteSize).map fun i =>
      writtenMember (.int false .w8) (byteName f i) none (byteDescription f i)

theorem commentSuffix_empty : commentSuffix "" = "" := rfl

theorem memberLine_plain (s : Scalar) (name description : String) :
    "    " ++ typeName (.scalar s) ++ " " ++ name ++ ";" ++ commentSuffix description =
      memberLine s name none description := by
  apply String.toList_inj.mp
  simp [memberLine, memberCode, widthCode, indent]

theorem memberLine_bits (s : Scalar) (name : String) (width : Nat) (description : String) :
    bitLine (typeName (.scalar s)) name width (commentSuffix description) =
      memberLine s name (some width) description := by
  apply String.toList_inj.mp
  simp [bitLine, memberLine, memberCode, widthCode, indent]

/-- The line of a cell. -/
def cellLine (s : Scalar) (c : Cell) : String := memberLine s c.name (some c.width) c.description

theorem gapLines_eq (s : Scalar) (start stop : Nat) :
    gapLines (typeName (.scalar s)) start stop = (gapCells start stop).map (cellLine s) := by
  by_cases h : start < stop
  · rw [gapLines, if_pos h, gapCells, if_pos h, List.map_singleton, cellLine, padCell,
      ← memberLine_bits, commentSuffix_empty]
  · rw [gapLines, if_neg h, gapCells, if_neg h, List.map_nil]

theorem bitLines_eq (s : Scalar) (width start : Nat) (bs : List BitMember) :
    bitLines (typeName (.scalar s)) width start bs =
      (cells width start bs).map (cellLine s) := by
  induction bs generalizing start with
  | nil => exact gapLines_eq s start width
  | cons b bs ih =>
    rw [bitLines, cells, gapLines_eq, ih, memberLine_bits, List.map_append, List.map_cons]
    rfl

theorem isInteger_of_exportedBits {f : Datagram.Field} (h : exportedBits f ≠ []) {s : Scalar}
    (ht : f.type = .scalar s) : s.isInteger = true := by
  by_cases hi : f.type.isInteger = true
  · rwa [ht] at hi
  · rw [exportedBits, if_neg hi] at h
    exact absurd rfl h

theorem ascending_exportedBits (f : Datagram.Field) :
    Ascending (8 * f.byteSize) 0 (exportedBits f) := by
  by_cases hi : f.type.isInteger = true
  · rw [exportedBits, if_pos hi]
    exact ascending_membersFrom _ _ _
  · rw [exportedBits, if_neg hi]
    trivial

theorem mem_exportedBits {f : Datagram.Field} {b : BitMember} (h : b ∈ exportedBits f) :
    b ∈ f.members := by
  by_cases hi : f.type.isInteger = true
  · rw [exportedBits, if_pos hi] at h
    exact List.mem_mergeSort.mp (mem_membersFrom h)
  · rw [exportedBits, if_neg hi] at h
    cases h

/-- Nothing that would fit is left out of the exported members. -/
theorem exported_or_covered {f : Datagram.Field} (hi : f.type.isInteger = true) {b : BitMember}
    (h : b ∈ f.members) :
    b ∈ exportedBits f ∨ 8 * f.byteSize ≤ b.span.last ∨
      ∃ k ∈ exportedBits f, k.span.first ≤ b.span.first ∧ b.span.first ≤ k.span.last := by
  have hsorted : (f.members.mergeSort fun a b => a.span.first ≤ b.span.first).Pairwise
      fun a b => a.span.first ≤ b.span.first := by
    have htrans : ∀ a b c : BitMember, decide (a.span.first ≤ b.span.first) = true →
        decide (b.span.first ≤ c.span.first) = true →
        decide (a.span.first ≤ c.span.first) = true := by
      simp only [decide_eq_true_eq]
      exact fun a b c => Nat.le_trans
    have htotal : ∀ a b : BitMember, (decide (a.span.first ≤ b.span.first) ||
        decide (b.span.first ≤ a.span.first)) = true := by
      simp only [Bool.or_eq_true, decide_eq_true_eq]
      exact fun a b => Nat.le_total _ _
    exact (List.pairwise_mergeSort htrans htotal f.members).imp of_decide_eq_true
  rw [exportedBits, if_pos hi]
  exact kept_or_covered hsorted (List.mem_mergeSort.mpr h) (Nat.zero_le _)

theorem tiles_exportedBits {f : Datagram.Field} (hr : f.isReference = false) {s : Scalar}
    (ht : f.type = .scalar s) : Tiles 0 s.bits (cells s.bits 0 (exportedBits f)) := by
  rw [← Field.bits_of_scalar hr ht]
  exact tiles_cells (ascending_exportedBits f) (Nat.zero_le _)

theorem fits_of_mem_cells {f : Datagram.Field} (hr : f.isReference = false) {s : Scalar}
    (ht : f.type = .scalar s) (hb : exportedBits f ≠ []) {c : Cell}
    (hc : c ∈ cells s.bits 0 (exportedBits f)) : Fits s c.width := by
  have hbounds := (tiles_exportedBits hr ht).bounds c hc
  exact ⟨isInteger_of_exportedBits hb ht, hbounds.1, by omega⟩

theorem declares_map {α : Type} {f : α → String} {g : α → Member} {xs : List α}
    (h : ∀ x ∈ xs, Declares (f x).toList (g x)) :
    List.Forall₂ Declares ((xs.map f).map String.toList) (xs.map g) := by
  induction xs with
  | nil => exact .nil
  | cons x xs ih =>
    exact .cons (h x List.mem_cons_self) (ih fun y hy => h y (List.mem_cons_of_mem _ hy))

theorem word_byteName (f : Datagram.Field) (i : Nat) : Word (byteName f i).toList := by
  have hn : (String.ofList (decimal i)).toList = decimal i := String.toList_ofList
  rw [byteName, String.toList_append, String.toList_append, hn]
  exact ((word_identifier f.name).append word_underscore).append (word_decimal i)

theorem fieldLines_bytes {f : Datagram.Field} (hr : f.isReference = false)
    (ht : f.type.fixedSize? = none) : fieldLines f = (List.range f.byteSize).map fun i =>
      memberLine (.int false .w8) (byteName f i) none (byteDescription f i) := by
  have htype : typeName f.type = typeName (.scalar (.int false .w8)) := by
    cases h : f.type with
    | scalar s =>
      rw [h] at ht
      cases ht
    | padding => rfl
    | string => rfl
    | bytes => rfl
  unfold fieldLines
  simp only [hr, Bool.false_eq_true, if_false, ht, Option.isNone_none, if_true]
  apply List.map_congr_left
  intro i _
  rw [← memberLine_plain, ← htype, byteName, byteDescription]
  by_cases hi : i = 0
  · simp [hi, String.append_assoc]
  · simp [hi, String.append_assoc, commentSuffix_empty]

theorem fieldLines_plain {f : Datagram.Field} (hr : f.isReference = false) {s : Scalar}
    (ht : f.type = .scalar s) (hb : exportedBits f = []) :
    fieldLines f = [memberLine s (identifier f.name) none f.description] := by
  have hfixed : (FieldType.scalar s).fixedSize?.isNone = false := rfl
  rw [fieldLines, ← memberLine_plain]
  simp [hr, ht, hfixed, hb]

/-- The lines of a field are read as its members. -/
theorem declares_fieldLines (f : Datagram.Field) :
    List.Forall₂ Declares ((fieldLines f).map String.toList) (exportedMembers f) := by
  by_cases hr : f.isReference = true
  · simp [fieldLines, exportedMembers, hr]
  · have hr : f.isReference = false := by simpa using hr
    cases ht : f.type with
    | scalar s =>
      cases hb : exportedBits f with
      | nil =>
        have hmembers : exportedMembers f =
            [writtenMember s (identifier f.name) none f.description] := by
          simp [exportedMembers, hr, ht, hb]
        rw [fieldLines_plain hr ht hb, hmembers]
        exact .cons (declares_memberLine (word_identifier _) (fits_none _) _) .nil
      | cons b bs =>
        have hfixed : (FieldType.scalar s).fixedSize?.isNone = false := rfl
        have hlines : fieldLines f = (cells s.bits 0 (b :: bs)).map (cellLine s) := by
          rw [← bitLines_eq, ← Field.bits_of_scalar hr ht, fieldLines]
          simp [hr, ht, hfixed, hb]
        have hmembers : exportedMembers f = (cells s.bits 0 (b :: bs)).map (cellMember s) := by
          simp [exportedMembers, hr, ht, hb]
        rw [hlines, hmembers, ← hb]
        refine declares_map fun c hc => declares_memberLine (word_of_mem_cells hc) ?_ _
        intro w hw
        obtain rfl : c.width = w := Option.some.inj hw
        exact fits_of_mem_cells hr ht (by simp [hb]) hc
    | padding | string | bytes =>
      have hmembers : exportedMembers f = (List.range f.byteSize).map fun i =>
          writtenMember (.int false .w8) (byteName f i) none (byteDescription f i) := by
        simp [exportedMembers, hr, ht]
      rw [fieldLines_bytes hr (by rw [ht]; rfl), hmembers]
      exact declares_map fun i _ => declares_memberLine (word_byteName f i) (fits_none _) _

end Datagram.Idl
