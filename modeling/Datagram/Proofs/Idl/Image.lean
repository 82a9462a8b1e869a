import Datagram.Proofs.Dict
import Datagram.Proofs.Idl.Document

/-! # What comes back of an exported field

A field comes back as its image: nothing for a reference, bytes where the type has no width of its
own, one field with the same bits otherwise. Structs are flattened field by field. -/

namespace Datagram.Idl

open Datagram.Text

/-- The fields that an exported field comes back as. -/
def fieldImage (e : Endian) (f : Datagram.Field) : List Datagram.Field :=
  if f.isReference then []
  else match f.type with
    | .scalar s =>
      match exportedBits f with
      | [] => [plainField e s (identifier f.name) f.description]
      | b :: bs => [storageImage e s (cells s.bits 0 (b :: bs))]
    | _ => (List.range f.byteSize).map fun i =>
      plainField e (.int false .w8) (byteName f i) (byteDescription f i)

variable {structs : List Struct} {e : Endian}

/-! ## Members and fields -/

/-- Every member of an exported field is written on a line, with a width that its type has room
for. -/
theorem mem_exportedMembers {f : Datagram.Field} {m : Member} (h : m ∈ exportedMembers f) :
    ∃ s name width description, (∀ w, width = some w → Fits s w) ∧
      m = writtenMember s name width description := by
  by_cases hr : f.isReference = true
  · rw [exportedMembers, if_pos hr] at h
    cases h
  · rw [exportedMembers, if_neg hr] at h
    have hr : f.isReference = false := by simpa using hr
    cases ht : f.type with
    | scalar s =>
      cases hb : exportedBits f with
      | nil =>
        simp only [ht, hb, List.mem_singleton] at h
        exact ⟨s, _, none, _, fits_none s, h⟩
      | cons b bs =>
        simp only [ht, hb, List.mem_map] at h
        obtain ⟨c, hc, rfl⟩ := h
        have hne : exportedBits f ≠ [] := by simp [hb]
        rw [← hb] at hc
        refine ⟨s, c.name, some c.width, c.description, fun w hw => ?_, rfl⟩
        cases hw
        exact fits_of_mem_cells hr ht hne hc
    | padding | string | bytes =>
      simp only [ht, List.mem_map] at h
      obtain ⟨i, _, rfl⟩ := h
      exact ⟨_, _, none, _, fits_none _, rfl⟩

theorem proper_exportedMembers (f : Datagram.Field) : Proper (exportedMembers f) := by
  intro m hm w hw
  obtain ⟨s, name, width, description, hfits, rfl⟩ := mem_exportedMembers hm
  exact (hfits w hw).pos

theorem proper_flatMap (fields : List Datagram.Field) :
    Proper (fields.flatMap exportedMembers) := by
  intro m hm
  obtain ⟨f, _, hm⟩ := List.mem_flatMap.mp hm
  exact proper_exportedMembers f m hm

theorem flatten_plains {α : Type} (s : Scalar) (name description : α → String) (xs : List α)
    (ms : List Member) :
    (groups (xs.map (fun x => writtenMember s (name x) none (description x)) ++ ms)).flatMap
        (flatten structs e "") =
      xs.map (fun x => plainField e s (name x) (description x)) ++
        (groups ms).flatMap (flatten structs e "") := by
  have hplain : ∀ m ∈ xs.map fun x => writtenMember s (name x) none (description x),
      m.bitWidth = none := by
    intro m hm
    obtain ⟨x, _, rfl⟩ := List.mem_map.mp hm
    rfl
  rw [groups_plain hplain, List.flatMap_append, List.map_map, List.flatMap_map]
  congr 1
  induction xs with
  | nil => rfl
  | cons x xs ih =>
    rw [List.flatMap_cons, List.map_cons, ih fun m hm => hplain m (List.mem_cons_of_mem _ hm),
      Function.comp_apply, flatten_plain]
    rfl

theorem flatten_field (f : Datagram.Field) {ms : List Member} (hm : Proper ms) :
    (groups (exportedMembers f ++ ms)).flatMap (flatten structs e "") =
      fieldImage e f ++ (groups ms).flatMap (flatten structs e "") := by
  by_cases hr : f.isReference = true
  · simp [exportedMembers, fieldImage, hr]
  · have hr : f.isReference = false := by simpa using hr
    cases ht : f.type with
    | scalar s =>
      cases hb : exportedBits f with
      | nil =>
        have hmembers : exportedMembers f = [()].map fun _ =>
            writtenMember s (identifier f.name) none f.description := by
          simp [exportedMembers, hr, ht, hb]
        have himage : fieldImage e f = [()].map fun _ =>
            plainField e s (identifier f.name) f.description := by
          simp [fieldImage, hr, ht, hb]
        rw [hmembers, himage]
        exact flatten_plains s (fun _ => identifier f.name) (fun _ => f.description) [()] ms
      | cons b bs =>
        have htiles := tiles_exportedBits hr ht
        rw [hb] at htiles
        have hmembers : exportedMembers f = (cells s.bits 0 (b :: bs)).map (cellMember s) := by
          simp [exportedMembers, hr, ht, hb]
        have himage : fieldImage e f = [storageImage e s (cells s.bits 0 (b :: bs))] := by
          simp [fieldImage, hr, ht, hb]
        have hne : cells s.bits 0 (b :: bs) ≠ [] := cells_ne_nil
        obtain ⟨c, cs, hcells⟩ := List.exists_cons_of_ne_nil hne
        rw [hcells] at htiles
        rw [hmembers, himage, hcells, groups_cells htiles hm, List.flatMap_cons,
          flatten_cells htiles]
    | padding | string | bytes =>
      have hmembers : exportedMembers f = (List.range f.byteSize).map fun i =>
          writtenMember (.int false .w8) (byteName f i) none (byteDescription f i) := by
        simp [exportedMembers, hr, ht]
      have himage : fieldImage e f = (List.range f.byteSize).map fun i =>
          plainField e (.int false .w8) (byteName f i) (byteDescription f i) := by
        simp [fieldImage, hr, ht]
      rw [hmembers, himage]
      exact flatten_plains _ (byteName f) (byteDescription f) _ ms

/-- The fields that a field comes back as, by its kind. -/
theorem mem_fieldImage {f g : Datagram.Field} (h : g ∈ fieldImage e f) :
    f.isReference = false ∧
      ((∃ s, g = plainField e s (identifier f.name) f.description) ∨
        (∃ s, f.type = .scalar s ∧ exportedBits f ≠ [] ∧
          g = storageImage e s (cells s.bits 0 (exportedBits f))) ∨
        ∃ i, g = plainField e (.int false .w8) (byteName f i) (byteDescription f i)) := by
  by_cases hr : f.isReference = true
  · rw [fieldImage, if_pos hr] at h
    cases h
  · rw [fieldImage, if_neg hr] at h
    refine ⟨by simpa using hr, ?_⟩
    cases ht : f.type with
    | scalar s =>
      cases hb : exportedBits f with
      | nil =>
        simp only [ht, hb, List.mem_singleton] at h
        exact Or.inl ⟨s, h⟩
      | cons b bs =>
        simp only [ht, hb, List.mem_singleton] at h
        exact Or.inr (Or.inl ⟨s, rfl, by simp, h⟩)
    | padding | string | bytes =>
      simp only [ht, List.mem_map] at h
      obtain ⟨i, _, rfl⟩ := h
      exact Or.inr (Or.inr ⟨i, rfl⟩)

/-- A struct comes back as the images of its fields, one behind the other. -/
theorem flatten_fields (fields : List Datagram.Field) :
    (groups (fields.flatMap exportedMembers)).flatMap (flatten structs e "") =
      fields.flatMap (fieldImage e) := by
  induction fields with
  | nil => rfl
  | cons f fields ih =>
    rw [List.flatMap_cons, flatten_field f (proper_flatMap fields), ih, List.flatMap_cons]

/-! ## No member stands for the header -/

theorem isStruct_writtenMember (s : Scalar) (name : String) (width : Option Nat)
    (description : String) : (writtenMember s name width description).isStruct = false := by
  cases s <;> rfl

theorem isStruct_exportedMembers {f : Datagram.Field} {m : Member} (h : m ∈ exportedMembers f) :
    m.isStruct = false := by
  obtain ⟨s, name, width, description, _, rfl⟩ := mem_exportedMembers h
  exact isStruct_writtenMember s name width description

theorem isHeaderGroup_exported (h : Struct) {fields : List Datagram.Field} {g : Group}
    (hg : g ∈ groups (fields.flatMap exportedMembers)) : Document.isHeaderGroup h g = false := by
  cases g with
  | bits first rest => rfl
  | single m =>
    obtain ⟨f, _, hm⟩ := List.mem_flatMap.mp ((plain_of_single_mem_groups hg).1)
    rw [Document.isHeaderGroup, isStruct_exportedMembers hm, Bool.false_and]

/-! ## Structs -/

theorem structFields_exported (d : Document) (name : String) (id : Option Nat)
    (description : String) (fields : List Datagram.Field) :
    d.structFields (exportedStruct name id description fields) =
      fields.flatMap (fieldImage d.directives.endian) :=
  flatten_fields fields

/-- The fields of the header that every export begins with. -/
def headerImage (e : Endian) : List Datagram.Field :=
  [plainField e (.int false .w16) "MsgID" "", plainField e (.int false .w16) "Length" ""]

theorem structFields_header (d : Document) :
    d.structFields headerStruct = headerImage d.directives.endian := by
  have hid : ∀ structs e, flatten structs e "" (.single idMember) =
      [plainField e (.int false .w16) "MsgID" ""] := by
    intro structs e
    have hp : idMember.primitive.scalar? = some (.int false .w16) := rfl
    have ha : idMember.arraySize = none := rfl
    rw [flatten]
    simp only [hp, scalarFields, ha, String.empty_append]
    rfl
  have hgroups : groups headerStruct.members =
      [.single idMember, .single (writtenMember (.int false .w16) "Length" none "")] := rfl
  rw [Document.structFields, hgroups, List.flatMap_cons, hid, List.flatMap_cons, flatten_plain]
  rfl

theorem partition_eq_nil {α : Type} {p : α → Bool} {l : List α} (h : ∀ a ∈ l, p a = false) :
    l.partition p = ([], l) := by
  rw [List.partition_eq_filter_filter, List.filter_eq_nil_iff.mpr (by simpa using h),
    List.filter_eq_self.mpr (by simpa using h)]

/-- A message comes back with an empty header, as no member stands for one. -/
theorem requestLayout_exported (d : Document) (name : String) (id : Option Nat)
    (description idText : String) (fields : List Datagram.Field) :
    d.requestLayout (exportedStruct name id description fields) idText =
      ⟨[], fields.flatMap (fieldImage d.directives.endian)⟩ := by
  unfold Document.requestLayout
  cases d.header? with
  | none =>
    simp only [exportedStruct, flatten_fields]
  | some h =>
    simp only [exportedStruct, partition_eq_nil fun g hg => isHeaderGroup_exported h hg,
      flatten_fields, List.flatMap_nil]

end Datagram.Idl
