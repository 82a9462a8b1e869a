import Datagram.Field

/-! # Fields that are built step by step

However a field is built, it has a size of its own if its type has no fixed width, and only then, and
bit members only if its type is an integer. A change of the type brings this about for any field, and
every other step keeps it. -/

namespace Datagram.Field

/-- What a field begins as. -/
inductive Origin where
  | blank
  | new (name : String) (type : FieldType)
  | reference (target : String)

def Origin.field : Origin → Field
  | .blank => {}
  | .new name type => Field.new name type
  | .reference target => Field.reference target

/-- A step in the building of a field. Of labels for one text the last counts. -/
inductive Edit where
  | retype (type : FieldType)
  | value (literal : String)
  | size (n : UInt64)
  | endian (e : Endian)
  | radix (r : Radix)
  | description (text : String)
  | labels (entries : List (String × String))
  | bits (members : List BitMember)

def edit (f : Field) : Edit → Field
  | .retype type => f.retyped type
  | .value literal => f.withValue literal
  | .size n => f.withSize n
  | .endian e => f.withEndian e
  | .radix r => f.withRadix r
  | .description text => f.withDescription text
  | .labels entries => f.withLabels (Dict.ofList entries)
  | .bits members => f.withBits members

/-- The field after some steps, one behind the other. -/
def build (f : Field) (edits : List Edit) : Field := edits.foldl edit f

/-- Size and bit members go with the type. -/
structure Consistent (f : Field) : Prop where
  size : f.size.isSome = true ↔ f.type = .padding ∨ f.type = .string ∨ f.type = .bytes
  bits : f.bits.isSome = true → f.type.isInteger = true

theorem fixedSize?_eq_none_iff (t : FieldType) :
    t.fixedSize? = none ↔ t = .padding ∨ t = .string ∨ t = .bytes := by
  cases t <;> simp [FieldType.fixedSize?]

theorem defaultSize?_of_fixedSize? {t : FieldType} (h : t.fixedSize? = none) :
    t.defaultSize?.isSome = true := by
  cases t with
  | scalar s => cases h
  | padding | string | bytes => rfl

variable {f : Field}

/-! ## One step -/

/-- A change of the type makes any field consistent, whatever it was. -/
theorem consistent_retyped (f : Field) (type : FieldType) : (f.retyped type).Consistent := by
  constructor
  · rw [retyped, ← fixedSize?_eq_none_iff]
    cases h : type.fixedSize? with
    | some n => simp
    | none =>
      have hdefault := defaultSize?_of_fixedSize? h
      cases f.size <;> simp [hdefault]
  · rw [retyped]
    by_cases hi : type.isInteger = true
    · exact fun _ => hi
    · simp [hi]

theorem Consistent.withSize (h : f.Consistent) (n : UInt64) : (f.withSize n).Consistent := by
  rw [Field.withSize]
  by_cases hn : f.type.fixedSize?.isNone = true
  · rw [if_pos hn]
    refine ⟨?_, h.bits⟩
    exact iff_of_true rfl ((fixedSize?_eq_none_iff _).mp (Option.isNone_iff_eq_none.mp hn))
  · rw [if_neg hn]
    exact h

theorem Consistent.withBits (h : f.Consistent) (members : List BitMember) :
    (f.withBits members).Consistent := by
  rw [Field.withBits]
  by_cases hi : f.type.isInteger = true
  · rw [if_pos hi]
    exact ⟨h.size, fun _ => hi⟩
  · rw [if_neg hi]
    exact h

/-- Every step keeps a field consistent. -/
theorem Consistent.edit (h : f.Consistent) (e : Edit) : (f.edit e).Consistent := by
  cases e with
  | retype type => exact consistent_retyped f type
  | size n => exact h.withSize n
  | bits members => exact h.withBits members
  | value | endian | radix | description | labels => exact ⟨h.size, h.bits⟩

/-! ## All steps -/

theorem Consistent.build (h : f.Consistent) (edits : List Edit) : (f.build edits).Consistent := by
  induction edits generalizing f with
  | nil => exact h
  | cons e edits ih => exact ih (h.edit e)

theorem consistent_origin (origin : Origin) : origin.field.Consistent := by
  cases origin with
  | blank => exact ⟨by decide, by decide⟩
  | new name type => exact consistent_retyped _ type
  | reference target =>
    constructor
    · exact iff_of_false Bool.false_ne_true (by rintro (h | h | h) <;> cases h)
    · exact fun h => absurd h Bool.false_ne_true

/-- A field takes the bytes of its type, or as many as the size says that it has. -/
structure Measured (f : Field) : Prop where
  fixed : ∀ n, f.type.fixedSize? = some n → f.byteSize = n
  sized : f.type.fixedSize? = none → ∃ n, f.size = some n ∧ f.byteSize = n.toNat

theorem Consistent.measured (h : f.Consistent) (hr : f.isReference = false) : f.Measured := by
  constructor
  · intro n hn
    simp [byteSize, hr, hn]
  · intro hn
    obtain ⟨n, hsize⟩ :=
      Option.isSome_iff_exists.mp (h.size.mpr ((fixedSize?_eq_none_iff _).mp hn))
    exact ⟨n, hsize, by simp [byteSize, hr, hn, hsize]⟩

/-- A field is consistent after any steps from its origin, and any field is from the step on that
gives it a type. So how many bytes it takes is always known. -/
theorem consistent_build (edits : List Edit) :
    (∀ origin : Origin, let f := origin.field.build edits
      f.Consistent ∧ (f.isReference = false → f.Measured)) ∧
    ∀ (loaded : Field) (type : FieldType), let f := (loaded.retyped type).build edits
      f.Consistent ∧ (f.isReference = false → f.Measured) := by
  constructor
  · intro origin f
    have hf : f.Consistent := (consistent_origin origin).build edits
    exact ⟨hf, hf.measured⟩
  · intro loaded type f
    have hf : f.Consistent := (consistent_retyped loaded type).build edits
    exact ⟨hf, hf.measured⟩

/-- A fraction with bit members and a size, made a text and a word again. -/
theorem consistent_build_loaded :
    let loaded : Field := { type := .scalar .float, size := some 9, bits := some [.single "on" 0] }
    let edits := [.size 3, .bits [.single "off" 1], .retype (.scalar (.int true .w16)), .size 7]
    let f := (loaded.retyped .string).build edits
    ¬ loaded.Consistent ∧ f.isReference = false ∧ f.size = none ∧ f.bits = none ∧
      f.byteSize = 2 := by
  intro loaded edits f
  have hreference : f.isReference = false := by decide
  obtain ⟨hf, hmeasured⟩ := (consistent_build edits).2 loaded .string
  refine ⟨fun h => ?_, hreference, ?_, by decide, (hmeasured hreference).fixed 2 rfl⟩
  · exact absurd (h.bits rfl) (by decide)
  · have hfixed : ¬ f.type.fixedSize? = none := by decide
    have hsize : ¬ f.size.isSome = true := fun h =>
      hfixed ((fixedSize?_eq_none_iff f.type).mpr (hf.size.mp h))
    exact Option.not_isSome_iff_eq_none.mp hsize

end Datagram.Field
