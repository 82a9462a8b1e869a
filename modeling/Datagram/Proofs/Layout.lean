import Datagram.Layout
import Mathlib.Data.List.Basic

/-! # Fields behind each other

References are not on the wire: a layout has the slots and the size that it has without them. The size
is counted in a word of 64 bits, and is that of the bytes on the wire if these are not too many. -/

namespace Datagram

theorem wireSize_append (fs gs : List Field) :
    wireSize (fs ++ gs) = wireSize fs + wireSize gs := by
  induction fs with
  | nil => exact (Nat.zero_add _).symm
  | cons f fs ih => rw [List.cons_append, wireSize, wireSize, ih, Nat.add_assoc]

theorem totalSize_eq_ofNat (fields : List Field) : totalSize fields = .ofNat (wireSize fields) := by
  induction fields with
  | nil => rfl
  | cons f fields ih => rw [totalSize, wireSize, ih, UInt64.ofNat_add]

/-- The fields of a list that are no references. -/
def ordinary (fields : List Field) : List Field := fields.filter (!·.isReference)

theorem ordinary_cons_reference {f : Field} (h : f.isReference = true) (fields : List Field) :
    ordinary (f :: fields) = ordinary fields := List.filter_cons_of_neg (by simp [h])

theorem ordinary_cons_field {f : Field} (h : f.isReference = false) (fields : List Field) :
    ordinary (f :: fields) = f :: ordinary fields := List.filter_cons_of_pos (by simp [h])

theorem byteSize_of_reference {f : Field} (h : f.isReference = true) : f.byteSize = 0 := by
  rw [Field.byteSize, if_pos h]

theorem wireSize_ordinary (fields : List Field) : wireSize (ordinary fields) = wireSize fields := by
  induction fields with
  | nil => rfl
  | cons f fields ih =>
    cases h : f.isReference with
    | true => rw [ordinary_cons_reference h, wireSize, byteSize_of_reference h, ih, Nat.zero_add]
    | false => rw [ordinary_cons_field h, wireSize, wireSize, ih]

namespace Layout

/-- The layout without its references. -/
def ordinary (l : Layout) : Layout := ⟨Datagram.ordinary l.header, Datagram.ordinary l.payload⟩

theorem totalSize_eq_mod (l : Layout) : l.totalSize = l.wireSize % UInt64.size := by
  rw [totalSize, totalSize_eq_ofNat, wireSize_append, UInt64.toNat_ofNat']
  rfl

theorem wireSize_ordinary (l : Layout) : l.ordinary.wireSize = l.wireSize := by
  rw [wireSize, wireSize, ordinary, Datagram.wireSize_ordinary, Datagram.wireSize_ordinary]

theorem slotsOf_ordinary (p : Part) (fields : List Field) :
    slotsOf p (Datagram.ordinary fields) = slotsOf p fields := by
  rw [slotsOf, slotsOf, Datagram.ordinary, List.filter_filter]
  simp only [Bool.and_self]

theorem slots_ordinary (l : Layout) : l.ordinary.slots = l.slots := by
  rw [slots, ordinary, slotsOf_ordinary, slotsOf_ordinary, slots]

end Layout

end Datagram
