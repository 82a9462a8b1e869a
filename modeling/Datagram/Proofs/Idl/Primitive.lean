import Datagram.Idl.Primitive
import Datagram.Proofs.Dict

/-! # Type names read back

The name that a field type is written with is that of a primitive of the same width and kind. -/

namespace Datagram

open Datagram.Text

theorem lowercase_of_lower {c : Char} (h : 97 ≤ c.toNat) (h' : c.toNat ≤ 122) :
    lowercase c = [c] := by
  have hruns : ∀ r ∈ caseRuns, r.last < 97 ∨ 122 < r.first := by decide +kernel
  have hnone : caseRuns.find? (·.covers c.toNat) = none := by
    rw [List.find?_eq_none]
    intro r hr
    have := hruns r hr
    simp only [CaseRun.covers, Bool.and_eq_true, decide_eq_true_eq, not_and]
    omega
  have hi : c.toNat ≠ 0x130 := by omega
  rw [lowercase, if_neg hi, hnone]

namespace Idl

theorem normalize_of_lower {name : String}
    (h : ∀ c ∈ name.toList, isBlank c = false → 97 ≤ c.toNat ∧ c.toNat ≤ 122) :
    normalize name = String.ofList (name.toList.filter (!isBlank ·)) := by
  have hmap : ∀ s : List Char, (∀ c ∈ s, lowercase c = [c]) → s.flatMap lowercase = s := by
    intro s hs
    rw [List.flatMap_congr hs]
    simp
  rw [normalize, hmap]
  intro c hc
  obtain ⟨hmem, hb⟩ := List.mem_filter.mp hc
  have := h c hmem (by simpa using hb)
  exact lowercase_of_lower this.1 this.2

namespace TypeTable

theorem nodup_standardNames :
    ((standardNames.flatMap fun (p, names) => names.map fun name => (name, p)).map
      Prod.fst).Nodup := by
  decide +kernel

/-- A name stands for the primitive in whose row it is. -/
theorem resolve_standard {name key : String} {p : Primitive} (hn : normalize name = key)
    (hk : (key, p) ∈ standardNames.flatMap fun (p, names) => names.map fun name => (name, p)) :
    standard.resolve name = p := by
  rw [resolve, hn, standard, Dict.get?_ofList_of_mem nodup_standardNames hk]
  rfl

/-- A type name that the standard table has. -/
def Listed (name : String) : Prop := ∃ row ∈ standardNames, normalize name ∈ row.2

theorem resolve_standard_of_row {name : String} {row : Primitive × List String}
    (hrow : row ∈ standardNames) (hn : normalize name ∈ row.2) : standard.resolve name = row.1 :=
  resolve_standard rfl (List.mem_flatMap.mpr ⟨row, hrow, List.mem_map.mpr ⟨_, hn, rfl⟩⟩)

theorem resolve_standard_of_not_listed {name : String} (h : ¬ Listed name) :
    standard.resolve name = .struct := by
  cases hfound : standard.aliases.get? (normalize name) with
  | none => rw [resolve, hfound, Option.getD_none]
  | some p =>
    obtain ⟨row, hrow, hentry⟩ := List.mem_flatMap.mp (Dict.mem_of_get?_ofList hfound)
    obtain ⟨key, hkey, heq⟩ := List.mem_map.mp hentry
    rw [(Prod.mk.inj heq).1] at hkey
    exact absurd ⟨row, hrow, hkey⟩ h

theorem scalar?_of_row {row : Primitive × List String} (h : row ∈ standardNames) :
    ∃ scalar, row.1.scalar? = some scalar := by
  have hall : ∀ row ∈ standardNames, row.1.scalar?.isSome = true := by decide
  exact Option.isSome_iff_exists.mp (hall row h)

end TypeTable

def primitiveOf : Scalar → Primitive
  | .int signed w => .int signed w
  | .float => .float
  | .double => .double

theorem scalar?_primitiveOf (s : Scalar) : (primitiveOf s).scalar? = some s := by
  cases s <;> rfl

theorem isInteger_primitiveOf (s : Scalar) : (primitiveOf s).isInteger = s.isInteger := by
  cases s <;> rfl

theorem bits_primitiveOf (s : Scalar) : (primitiveOf s).bits = s.bits := by
  rw [Primitive.bits, Primitive.size, scalar?_primitiveOf]
  rfl

theorem resolve_typeName (s : Scalar) :
    TypeTable.standard.resolve (typeName (.scalar s)) = primitiveOf s := by
  have hall : (typeName (.scalar s)).toList.all
      (fun c => isBlank c || (97 ≤ c.toNat && c.toNat ≤ 122)) = true := by
    cases s with
    | int signed w => cases signed <;> cases w <;> decide
    | float => decide
    | double => decide
  have hlower : ∀ c ∈ (typeName (.scalar s)).toList,
      isBlank c = false → 97 ≤ c.toNat ∧ c.toNat ≤ 122 := by
    intro c hc hb
    simpa [hb] using List.all_eq_true.mp hall c hc
  apply TypeTable.resolve_standard (normalize_of_lower hlower)
  cases s with
  | int signed w => cases signed <;> cases w <;> decide
  | float => decide
  | double => decide

end Idl

end Datagram
