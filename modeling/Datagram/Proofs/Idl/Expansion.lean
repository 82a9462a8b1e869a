import Datagram.Proofs.Idl.Group
import Mathlib.Logic.Relation

/-! # Structs expanded one within the other

Below a struct the structs of its name are not expanded again, so there are fewer with each step. What
a struct leads to decides whether it matters which of them are left. -/

namespace Datagram.Idl

/-! ## Fewer structs -/

/-- A property that structs have if they have it without those of any one name is one of all structs. -/
theorem expansion_induction {P : List Struct → Prop}
    (step : ∀ structs, (∀ name s, findStruct? structs name = some s → P (without structs name)) →
      P structs)
    (structs : List Struct) : P structs := by
  induction hn : structs.length using Nat.strong_induction_on generalizing structs with
  | h n ih => exact step structs fun name s hs => ih _ (hn ▸ length_without_lt hs) _ rfl

theorem findStruct?_of_mem {structs : List Struct} (hn : (structs.map Struct.name).Nodup)
    {s : Struct} (hs : s ∈ structs) : findStruct? structs s.name = some s := by
  induction structs with
  | nil => cases hs
  | cons t ts ih =>
    rw [List.map_cons, List.nodup_cons] at hn
    rw [findStruct?]
    rcases List.mem_cons.mp hs with rfl | hs
    · exact List.find?_cons_of_pos (by simp)
    · have hne : t.name ≠ s.name := fun heq => hn.1 (heq ▸ List.mem_map_of_mem hs)
      rw [List.find?_cons_of_neg (by simpa using hne)]
      exact ih hn.2 hs

/-- Structs that are chosen by their names are found by the names that were chosen. -/
theorem findStruct?_filter (keep : String → Bool) (structs : List Struct) (name : String) :
    findStruct? (structs.filter fun s => keep s.name) name =
      if keep name then findStruct? structs name else none := by
  rw [findStruct?, findStruct?, List.find?_filter]
  by_cases hkeep : keep name = true
  · rw [if_pos hkeep]
    congr 1
    funext s
    by_cases hs : s.name = name
    · simp [hs, hkeep]
    · simp [hs]
  · rw [if_neg hkeep, List.find?_eq_none]
    intro s _
    by_cases hs : s.name = name
    · simp [hs, hkeep]
    · simp [hs]

theorem findStruct?_without_self (structs : List Struct) (name : String) :
    findStruct? (without structs name) name = none :=
  (findStruct?_filter (· ≠ name) structs name).trans (if_neg (by simp))

theorem findStruct?_without {name other : String} (h : other ≠ name) (structs : List Struct) :
    findStruct? (without structs name) other = findStruct? structs other :=
  (findStruct?_filter (· ≠ name) structs other).trans (if_pos (decide_eq_true h))

theorem without_comm (structs : List Struct) (a b : String) :
    without (without structs a) b = without (without structs b) a := by
  rw [without, without, without, without, List.filter_filter, List.filter_filter]
  congr 1
  funext s
  exact Bool.and_comm ..

/-! ## Sizes -/

/-- The type of a member is no scalar exactly where it is a struct. -/
theorem Member.isStruct_iff {m : Member} : m.isStruct = true ↔ m.primitive.scalar? = none := by
  rw [Member.isStruct, decide_eq_true_eq]
  cases m.primitive <;> simp [Primitive.scalar?]

/-- A bit field lies in a storage unit only. -/
def Group.Sound : Group → Prop
  | .single m => m.bitWidth = none
  | .bits .. => True

theorem sound_of_mem_groups {ms : List Member} {g : Group} (h : g ∈ groups ms) : g.Sound := by
  cases g with
  | single m => exact (plain_of_single_mem_groups h).2
  | bits first rest => trivial

theorem sizeIn_of_none {structs : List Struct} {name : String}
    (h : findStruct? structs name = none) : sizeIn structs name = 0 := by
  rw [sizeIn]
  split
  · rfl
  · rename_i s hs
    rw [h] at hs
    cases hs

theorem sizeIn_of_some {structs : List Struct} {name : String} {s : Struct}
    (h : findStruct? structs name = some s) :
    sizeIn structs name = Group.totalSize (sizeIn (without structs name)) (groups s.members) := by
  rw [sizeIn]
  split
  · rename_i hnone
    rw [h] at hnone
    cases hnone
  · rename_i t ht
    rw [h] at ht
    cases ht
    rfl

/-- The size of a group takes only the structs that its member refers to. -/
theorem size_congr {sizeOf sizeOf' : String → Nat} {g : Group}
    (h : ∀ m, g = .single m → m.isStruct = true → sizeOf m.typeName = sizeOf' m.typeName) :
    g.size sizeOf = g.size sizeOf' := by
  cases g with
  | bits first rest => rfl
  | single m =>
    rw [Group.size, Group.size, Member.totalSize, Member.totalSize, Member.elementSize,
      Member.elementSize]
    by_cases hm : m.isStruct = true
    · rw [h m rfl hm]
    · rw [if_neg hm, if_neg hm]

theorem Group.totalSize_eq_sum (sizeOf : String → Nat) (gs : List Group) :
    Group.totalSize sizeOf gs = (gs.map (·.size sizeOf)).sum := by
  induction gs with
  | nil => rfl
  | cons g gs ih => rw [Group.totalSize, ih, List.map_cons, List.sum_cons]

theorem Group.totalSize_congr {sizeOf sizeOf' : String → Nat} {gs : List Group}
    (h : ∀ g ∈ gs, g.size sizeOf = g.size sizeOf') :
    Group.totalSize sizeOf gs = Group.totalSize sizeOf' gs := by
  rw [Group.totalSize_eq_sum, Group.totalSize_eq_sum, List.map_congr_left h]

/-! ## Flattened members -/

section Flatten

variable {structs : List Struct} {e : Endian} {m : Member}

theorem flatten_of_scalar {scalar : Scalar} (hp : m.primitive.scalar? = some scalar) (pre : String) :
    flatten structs e pre (.single m) = scalarFields e pre scalar m := by
  rw [flatten, hp]

theorem flatten_of_none (hp : m.primitive.scalar? = none)
    (h : findStruct? structs m.typeName = none) (pre : String) :
    flatten structs e pre (.single m) = [] := by
  rw [flatten, hp]
  dsimp only
  split
  · rfl
  · rename_i s hs
    rw [h] at hs
    cases hs

theorem flatten_of_some (hp : m.primitive.scalar? = none) {s : Struct}
    (h : findStruct? structs m.typeName = some s) (pre : String) :
    flatten structs e pre (.single m) = (List.range m.count).flatMap fun i =>
      (groups s.members).flatMap (flatten (without structs m.typeName) e (innerPrefix pre m i)) := by
  rw [flatten, hp]
  dsimp only
  split
  · rename_i hnone
    rw [h] at hnone
    cases hnone
  · rename_i t ht
    rw [h] at ht
    cases ht
    rfl

end Flatten

/-! ## Structs that refer to each other -/

/-- The struct that has the first name has a member of the type that has the second one. -/
def Refers (structs : List Struct) (a b : String) : Prop :=
  ∃ s, findStruct? structs a = some s ∧ ∃ m ∈ s.members, m.isStruct = true ∧ m.typeName = b

theorem Refers.of_without {structs : List Struct} {name a b : String}
    (h : Refers (without structs name) a b) : Refers structs a b := by
  obtain ⟨s, hs, hm⟩ := h
  have hne : a ≠ name := by
    rintro rfl
    rw [findStruct?_without_self] at hs
    cases hs
  rw [findStruct?_without hne] at hs
  exact ⟨s, hs, hm⟩

/-- A struct without members of struct type leads nowhere. -/
theorem eq_of_reaches_of_plain {structs : List Struct} {a b : String} {s : Struct}
    (hs : findStruct? structs a = some s) (hplain : ∀ m ∈ s.members, m.isStruct = false)
    (h : Relation.ReflTransGen (Refers structs) a b) : a = b := by
  rcases h.cases_head with heq | ⟨c, ⟨t, ht, m, hm, hstruct, _⟩, _⟩
  · exact heq
  · rw [hs] at ht
    cases ht
    rw [hplain m hm] at hstruct
    cases hstruct

/-- A struct that does not lead to a name has the same size without the structs of that name. -/
theorem sizeIn_without {structs : List Struct} {name inner : String}
    (h : ¬ Relation.ReflTransGen (Refers structs) inner name) :
    sizeIn (without structs name) inner = sizeIn structs inner := by
  induction structs using expansion_induction generalizing inner with
  | step structs ih =>
    have hne : inner ≠ name := fun heq => h (heq ▸ .refl)
    cases hs : findStruct? structs inner with
    | none => rw [sizeIn_of_none hs, sizeIn_of_none ((findStruct?_without hne structs).trans hs)]
    | some s =>
      rw [sizeIn_of_some hs, sizeIn_of_some ((findStruct?_without hne structs).trans hs)]
      refine Group.totalSize_congr fun g hg => size_congr fun m hm hstruct => ?_
      subst hm
      have hedge : Refers structs inner m.typeName :=
        ⟨s, hs, m, (plain_of_single_mem_groups hg).1, hstruct, rfl⟩
      -- A path below the member is a path from the struct that has the member.
      have hinner : ¬ Relation.ReflTransGen (Refers (without structs inner)) m.typeName name :=
        fun hpath => h (.head hedge (hpath.lift id fun _ _ => Refers.of_without))
      rw [without_comm]
      exact ih inner s hs hinner

end Datagram.Idl
