import Datagram.Proofs.Idl.Size

/-! # Copies of a struct within another

Where a struct stands in another one, its fields are those that it has on its own, with the name of the
member in front of theirs, once for each element of the member. For this the outer struct must not be
within the inner one, since a struct is not expanded within itself. -/

namespace Datagram

/-- A field below a name. -/
def Field.under (pre : String) (f : Field) : Field := { f with name := pre ++ f.name }

theorem Field.under_withBits (pre : String) (f : Field) (bits : List BitMember) :
    (f.withBits bits).under pre = (f.under pre).withBits bits := by
  have htype : (f.under pre).type = f.type := rfl
  rw [Field.withBits, Field.withBits, htype]
  split
  · rfl
  · rfl

theorem wireSize_map_under (pre : String) (fs : List Field) :
    wireSize (fs.map (Field.under pre)) = wireSize fs := by
  induction fs with
  | nil => rfl
  | cons f fs ih =>
    have hf : (f.under pre).byteSize = f.byteSize := rfl
    rw [List.map_cons, wireSize, wireSize, hf, ih]

theorem wireSize_flatMap_of_eq {α : Type} {f : α → List Field} {n : Nat}
    (h : ∀ a, wireSize (f a) = n) (xs : List α) : wireSize (xs.flatMap f) = xs.length * n := by
  induction xs with
  | nil => exact (Nat.zero_mul n).symm
  | cons a xs ih =>
    rw [List.flatMap_cons, wireSize_append, h, ih, List.length_cons, Nat.succ_mul, Nat.add_comm]

namespace Idl

variable {structs : List Struct} {e : Endian}

/-! ## Names -/

theorem storageField_append (p q : String) (scalar : Scalar) (run : List Member) :
    storageField e (p ++ q) scalar run = (storageField e q scalar run).under p := by
  rw [storageField, storageField, Field.under_withBits, String.append_assoc]
  rfl

theorem scalarFields_append (p q : String) (scalar : Scalar) (m : Member) :
    scalarFields e (p ++ q) scalar m = (scalarFields e q scalar m).map (Field.under p) := by
  unfold scalarFields
  cases m.arraySize with
  | none =>
    dsimp only
    rw [String.append_assoc]
    rfl
  | some n =>
    dsimp only
    rw [List.map_map]
    refine List.map_congr_left fun i _ => ?_
    rw [Function.comp_apply, String.append_assoc]
    split
    · rfl
    · rfl

theorem innerPrefix_append (p q : String) (m : Member) (i : Nat) :
    innerPrefix (p ++ q) m i = p ++ innerPrefix q m i := by
  rw [innerPrefix, innerPrefix, String.append_assoc, String.append_assoc, String.append_assoc]

/-- What stands in front of the names of a group does nothing but stand there. -/
theorem flatten_append (p q : String) (g : Group) :
    flatten structs e (p ++ q) g = (flatten structs e q g).map (Field.under p) := by
  induction structs using expansion_induction generalizing p q g with
  | step structs ih =>
    cases g with
    | bits first rest =>
      rw [flatten, flatten]
      cases first.primitive.scalar? with
      | none => rfl
      | some scalar =>
        exact congrArg (fun f => [f]) (storageField_append p q scalar (first :: rest))
    | single m =>
      cases hp : m.primitive.scalar? with
      | some scalar =>
        rw [flatten_of_scalar hp, flatten_of_scalar hp, scalarFields_append]
      | none =>
        cases hs : findStruct? structs m.typeName with
        | none =>
          rw [flatten_of_none hp hs, flatten_of_none hp hs]
          rfl
        | some s =>
          rw [flatten_of_some hp hs, flatten_of_some hp hs, List.map_flatMap]
          refine List.flatMap_congr fun i _ => ?_
          rw [List.map_flatMap, innerPrefix_append]
          exact List.flatMap_congr fun g _ => ih _ s hs p _ g

/-! ## Structs that do not matter -/

/-- A group that does not lead to a name has the same fields without the structs of that name. -/
theorem flatten_without {name : String} {g : Group}
    (h : ∀ m, g = .single m → m.isStruct = true →
      ¬ Relation.ReflTransGen (Refers structs) m.typeName name) (pre : String) :
    flatten (without structs name) e pre g = flatten structs e pre g := by
  induction structs using expansion_induction generalizing g pre with
  | step structs ih =>
    cases g with
    | bits first rest => rw [flatten, flatten]
    | single m =>
      cases hp : m.primitive.scalar? with
      | some scalar => rw [flatten_of_scalar hp, flatten_of_scalar hp]
      | none =>
        have hpath := h m rfl (Member.isStruct_iff.mpr hp)
        have hne : m.typeName ≠ name := fun heq => hpath (heq ▸ .refl)
        have hfind := findStruct?_without hne structs
        cases hs : findStruct? structs m.typeName with
        | none => rw [flatten_of_none hp hs, flatten_of_none hp (hfind.trans hs)]
        | some s =>
          rw [flatten_of_some hp hs, flatten_of_some hp (hfind.trans hs), without_comm]
          refine List.flatMap_congr fun i _ => List.flatMap_congr fun g hg => ih _ s hs ?_ _
          intro k hk hinner
          subst hk
          have hedge : Refers structs m.typeName k.typeName :=
            ⟨s, hs, k, (plain_of_single_mem_groups hg).1, hinner, rfl⟩
          exact fun hlonger =>
            hpath (.head hedge (hlonger.lift id fun _ _ => Refers.of_without))

/-! ## Copies -/

/-- The fields of a struct under each element of a member. -/
def Document.copies (d : Document) (t : Struct) (m : Member) : List Datagram.Field :=
  (List.range m.count).flatMap fun i => (d.structFields t).map (Field.under (innerPrefix "" m i))

variable {d : Document} {t u : Struct} {m : Member}

theorem wireSize_scalarFields (pre : String) (scalar : Scalar) (m : Member) :
    wireSize (scalarFields e pre scalar m) = m.count * scalar.bytes := by
  rw [← wireSize_map_anonymous, map_anonymous_scalarFields, ← List.flatten_replicate_singleton,
    wireSize_replicate_flatten, Nat.mul_comm]
  rfl

theorem wireSize_copies (ht : d.struct? t.name = some t) (m : Member) :
    wireSize (d.copies t m) = m.count * d.structSize t.name := by
  have hcopy : ∀ i, wireSize ((d.structFields t).map (Field.under (innerPrefix "" m i))) =
      d.structSize t.name := by
    intro i
    rw [wireSize_map_under]
    exact (fills_structFields ht).size
  rw [Document.copies, wireSize_flatMap_of_eq hcopy, List.length_range]

theorem flatten_eq_copies (hm : m.isStruct = true) (ht : d.struct? m.typeName = some t)
    (hpath : ¬ Relation.ReflTransGen (Refers d.structs) m.typeName u.name) :
    flatten (without d.structs u.name) d.directives.endian "" (.single m) = d.copies t m := by
  have hp := Member.isStruct_iff.mp hm
  have hname : t.name = m.typeName := name_of_findStruct? ht
  have hne : m.typeName ≠ u.name := fun heq => hpath (heq ▸ .refl)
  rw [flatten_of_some hp ((findStruct?_without hne _).trans ht), Document.copies]
  refine List.flatMap_congr fun i _ => ?_
  rw [Document.structFields, List.map_flatMap, hname, without_comm]
  refine List.flatMap_congr fun g hg => ?_
  rw [← flatten_append, String.append_empty]
  refine flatten_without ?_ _
  intro k hk hinner
  subst hk
  have hedge : Refers d.structs m.typeName k.typeName :=
    ⟨t, ht, k, (plain_of_single_mem_groups hg).1, hinner, rfl⟩
  exact fun hlonger => hpath (.head hedge (hlonger.lift id fun _ _ => Refers.of_without))

/-- A plain member parts the fields of a struct. -/
theorem structFields_append_single (d : Document) (u : Struct) {before after : List Member}
    (hmembers : u.members = before ++ m :: after) (hm : m.bitWidth = none) :
    d.structFields u = d.structFields { u with members := before } ++
      (flatten (without d.structs u.name) d.directives.endian "" (.single m) ++
        d.structFields { u with members := after }) := by
  rw [Document.structFields, hmembers, groups, groupsAfter_append_single hm, List.flatMap_append,
    List.flatMap_cons]
  rfl

end Idl

end Datagram
