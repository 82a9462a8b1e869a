import Datagram.Proofs.Idl.Expansion
import Datagram.Proofs.Idl.Lookup
import Datagram.Proofs.Idl.Segment
import Datagram.Proofs.Layout

/-! # Flattened members fill the size of their struct

The size of a struct and the fields that it becomes are computed apart. Both descend through the
structs that may still be expanded, so by induction on these the fields of a group take the bytes
that the group is counted with: its storage unit, or an equal block for each element of its member. -/

namespace Datagram

/-! ## Fields behind each other -/

theorem wireSize_replicate_flatten (n : Nat) (fs : List Field) :
    wireSize (List.replicate n fs).flatten = wireSize fs * n := by
  induction n with
  | zero => rfl
  | succ n ih =>
    rw [List.replicate_succ, List.flatten_cons, wireSize_append, ih, Nat.mul_succ, Nat.add_comm]

/-- What a field takes on the wire and how it is read, without its name and its comment. -/
def Field.anonymous (f : Field) : Field := { f with name := "", description := "" }

theorem wireSize_map_anonymous (fs : List Field) :
    wireSize (fs.map Field.anonymous) = wireSize fs := by
  induction fs with
  | nil => rfl
  | cons f fs ih =>
    have hf : f.anonymous.byteSize = f.byteSize := rfl
    rw [List.map_cons, wireSize, wireSize, hf, ih]

namespace Idl

/-! ## Groups behind each other -/

theorem wireSize_flatMap_groups {f : Group → List Datagram.Field} {sizeOf : String → Nat}
    {gs : List Group} (h : ∀ g ∈ gs, wireSize (f g) = g.size sizeOf) :
    wireSize (gs.flatMap f) = Group.totalSize sizeOf gs := by
  induction gs with
  | nil => rfl
  | cons g gs ih =>
    rw [List.flatMap_cons, wireSize_append, h g List.mem_cons_self,
      ih fun g' hg' => h g' (List.mem_cons_of_mem _ hg'), Group.totalSize]

theorem size_single {m : Member} (h : m.bitWidth = none) (sizeOf : String → Nat) :
    (Group.single m).size sizeOf = m.elementSize sizeOf * m.count := by
  rw [Group.size, Member.totalSize, h]
  rfl

/-! ## Blocks -/

/-- The fields of a group without their names and comments, which alone depend on where it stands. -/
def shape (structs : List Struct) (e : Endian) (g : Group) : List Datagram.Field :=
  (flatten structs e "" g).map Field.anonymous

/-- The fields of one element of a member, without their names and comments. -/
def block (structs : List Struct) (e : Endian) (m : Member) : List Datagram.Field :=
  match m.primitive.scalar? with
  | some scalar => [(Field.new "" (.scalar scalar)).withEndian e]
  | none =>
    match findStruct? structs m.typeName with
    | none => []
    | some s => (groups s.members).flatMap (shape (without structs m.typeName) e)

variable {e : Endian}

theorem anonymous_storageField (pre : String) (scalar : Scalar) (run : List Member) :
    (storageField e pre scalar run).anonymous = (storageField e "" scalar run).anonymous := by
  have hbits : ∀ (f : Datagram.Field) bits,
      (f.withBits bits).anonymous = f.anonymous.withBits bits := by
    intro f bits
    have htype : f.anonymous.type = f.type := rfl
    rw [Field.withBits, Field.withBits, htype]
    split
    · rfl
    · rfl
  rw [storageField, storageField, hbits, hbits]
  rfl

theorem flatMap_range_const {α : Type} (n : Nat) (xs : List α) :
    (List.range n).flatMap (fun _ => xs) = (List.replicate n xs).flatten := by
  rw [List.flatMap_def, List.map_const', List.length_range]

theorem map_anonymous_scalarFields (pre : String) (scalar : Scalar) (m : Member) :
    (scalarFields e pre scalar m).map Field.anonymous =
      List.replicate m.count ((Field.new "" (.scalar scalar)).withEndian e) := by
  unfold scalarFields Member.count
  cases m.arraySize with
  | none => rfl
  | some n =>
    have hfield : Field.anonymous ∘ (fun i =>
        let f := (Field.new (pre ++ elementName m.name i) (.scalar scalar)).withEndian e
        if i = 0 then f.withDescription m.comment else f) =
        fun _ => (Field.new "" (.scalar scalar)).withEndian e := by
      funext i
      rw [Function.comp_apply]
      dsimp only
      split
      · rfl
      · rfl
    dsimp only
    rw [List.map_map, hfield, List.map_const', List.length_range]
    rfl

theorem map_anonymous_single_of {structs : List Struct}
    (hinner : ∀ name s, findStruct? structs name = some s → ∀ pre g,
      (flatten (without structs name) e pre g).map Field.anonymous =
        shape (without structs name) e g)
    (pre : String) (m : Member) :
    (flatten structs e pre (.single m)).map Field.anonymous =
      (List.replicate m.count (block structs e m)).flatten := by
  rw [block]
  cases hp : m.primitive.scalar? with
  | some scalar =>
    dsimp only
    rw [flatten_of_scalar hp, map_anonymous_scalarFields, List.flatten_replicate_singleton]
  | none =>
    dsimp only
    cases hs : findStruct? structs m.typeName with
    | none =>
      rw [flatten_of_none hp hs, List.flatten_replicate_nil]
      rfl
    | some s =>
      dsimp only
      rw [flatten_of_some hp hs, List.map_flatMap, ← flatMap_range_const]
      refine List.flatMap_congr fun i _ => ?_
      rw [List.map_flatMap]
      exact List.flatMap_congr fun g _ => hinner _ s hs _ g

theorem map_anonymous_flatten (structs : List Struct) (pre : String) (g : Group) :
    (flatten structs e pre g).map Field.anonymous = shape structs e g := by
  induction structs using expansion_induction generalizing pre g with
  | step structs ih =>
    cases g with
    | bits first rest =>
      rw [shape, flatten, flatten]
      cases first.primitive.scalar? with
      | none => rfl
      | some scalar =>
        exact congrArg (fun f => [f]) (anonymous_storageField pre scalar (first :: rest))
    | single m =>
      rw [shape, map_anonymous_single_of ih, map_anonymous_single_of ih]

/-- A member becomes its block once for each of its elements. -/
theorem map_anonymous_single (structs : List Struct) (pre : String) (m : Member) :
    (flatten structs e pre (.single m)).map Field.anonymous =
      (List.replicate m.count (block structs e m)).flatten :=
  map_anonymous_single_of (fun name _ _ => map_anonymous_flatten (without structs name)) pre m

/-! ## Sizes -/

theorem byteSize_storageField (pre : String) (scalar : Scalar) (run : List Member) :
    (storageField e pre scalar run).byteSize = scalar.bytes := by
  unfold storageField Field.withBits
  dsimp only
  split
  · rfl
  · rfl

theorem wireSize_bits (structs : List Struct) (pre : String) (first : Member)
    (rest : List Member) :
    wireSize (flatten structs e pre (.bits first rest)) = first.primitive.size := by
  rw [flatten, Primitive.size]
  cases first.primitive.scalar? with
  | none => rfl
  | some scalar => exact byteSize_storageField pre scalar (first :: rest)

theorem wireSize_single (structs : List Struct) (pre : String) (m : Member) :
    wireSize (flatten structs e pre (.single m)) = wireSize (block structs e m) * m.count := by
  rw [← wireSize_map_anonymous, map_anonymous_single, wireSize_replicate_flatten]

theorem wireSize_block (structs : List Struct) (m : Member) :
    wireSize (block structs e m) = m.elementSize (sizeIn structs) := by
  induction structs using expansion_induction generalizing m with
  | step structs ih =>
    cases hp : m.primitive.scalar? with
    | some scalar =>
      have hplain : m.isStruct = false := by
        rw [Bool.eq_false_iff, ne_eq, Member.isStruct_iff, hp]
        exact Option.some_ne_none scalar
      rw [block, hp, Member.elementSize, hplain, Primitive.size, hp]
      rfl
    | none =>
      rw [block, hp, Member.elementSize, if_pos (Member.isStruct_iff.mpr hp)]
      dsimp only
      cases hs : findStruct? structs m.typeName with
      | none => exact (sizeIn_of_none hs).symm
      | some s =>
        rw [sizeIn_of_some hs]
        refine wireSize_flatMap_groups fun g hg => ?_
        rw [shape, wireSize_map_anonymous]
        cases g with
        | bits first rest => exact wireSize_bits _ _ first rest
        | single k =>
          rw [wireSize_single, size_single (sound_of_mem_groups hg), ih _ s hs]

theorem wireSize_flatten (structs : List Struct) (pre : String) {g : Group} (h : g.Sound) :
    wireSize (flatten structs e pre g) = g.size (sizeIn structs) := by
  cases g with
  | bits first rest => exact wireSize_bits structs pre first rest
  | single m => rw [wireSize_single, wireSize_block, size_single h]

/-! ## Structs -/

/-- How the fields of a group lie, where the given structs may be expanded. A storage unit has the
size of its type. A member has an equal block for each of its elements, as large as the element; in a
block lie the fields of the struct that the member refers to. -/
def Occupies (structs : List Struct) : Group → List Datagram.Field → Prop
  | .bits first _, fields => wireSize fields = first.primitive.size
  | .single m, fields =>
    m.bitWidth = none ∧ ∃ block, fields.map Field.anonymous = (List.replicate m.count block).flatten ∧
      wireSize block = m.elementSize (sizeIn structs) ∧
      ∀ s, (_h : findStruct? structs m.typeName = some s) → m.isStruct = true →
        ∃ parts, block = parts.flatten ∧
          List.Forall₂ (fun g part => Occupies (without structs m.typeName) g part)
            (groups s.members) parts
termination_by structs.length
decreasing_by exact length_without_lt _h

theorem anonymous_shape (structs : List Struct) (g : Group) :
    (shape structs e g).map Field.anonymous = shape structs e g := by
  rw [shape, List.map_map]
  rfl

theorem occupies_of_shape {structs : List Struct} {g : Group} (hg : g.Sound)
    {fields : List Datagram.Field} (h : fields.map Field.anonymous = shape structs e g) :
    Occupies structs g fields := by
  induction structs using expansion_induction generalizing g fields with
  | step structs ih =>
    cases g with
    | bits first rest =>
      rw [Occupies, ← wireSize_map_anonymous, h, shape, wireSize_map_anonymous, wireSize_bits]
    | single m =>
      rw [Occupies]
      refine ⟨hg, block structs e m, h.trans (map_anonymous_single structs "" m),
        wireSize_block structs m, fun s hs hstruct => ?_⟩
      have hnone := Member.isStruct_iff.mp hstruct
      refine ⟨(groups s.members).map (shape (without structs m.typeName) e), ?_, ?_⟩
      · rw [block, hnone, hs]
        exact List.flatMap_def ..
      · rw [List.forall₂_map_right_iff, List.forall₂_same]
        intro g hg
        exact ih _ s hs (sound_of_mem_groups hg) (anonymous_shape _ g)

/-- Fields that take the bytes of a struct, group by group. -/
structure Fills (d : Document) (s : Struct) (fields : List Datagram.Field) : Prop where
  size : wireSize fields = d.structSize s.name
  groups : ∃ parts, fields = parts.flatten ∧
    List.Forall₂ (Occupies (without d.structs s.name)) (groups s.members) parts

theorem fills_structFields {d : Document} {s : Struct} (hs : d.struct? s.name = some s) :
    Fills d s (d.structFields s) where
  size := by
    rw [Document.structFields, Document.structSize, sizeIn_of_some hs]
    exact wireSize_flatMap_groups fun g hg => wireSize_flatten _ _ (sound_of_mem_groups hg)
  groups := by
    refine ⟨_, List.flatMap_def .., ?_⟩
    rw [List.forall₂_map_right_iff, List.forall₂_same]
    exact fun g hg => occupies_of_shape (sound_of_mem_groups hg) (map_anonymous_flatten _ _ g)

/-- Of the first struct with its name, the component has the size of the struct. -/
theorem component_fills {options : Options} {text : String} {d : Document}
    (hd : Document.parse options text = .ok d) (source : String) {s : Struct}
    (hs : d.struct? s.name = some s) :
    (s.role = .user → ∃ cs k, (d.toCatalog source).components = some cs ∧
      cs.schemas.get? s.name = some k ∧ Fills d s k.fields) ∧
    (s.role = .header → ∃ cs fields, (d.toCatalog source).components = some cs ∧
      cs.headers.get? commonHeader = some fields ∧ Fills d s fields) := by
  constructor
  · intro hr
    have hfound := get?_schemas_of_user hs hr
    exact ⟨d.components, componentOf d s, components_of_schema hfound source, hfound,
      fills_structFields hs⟩
  · intro hr
    have hheader := header?_of_parse hd (List.mem_of_find?_eq_some hs) hr
    exact ⟨d.components, d.structFields s, components_of_header hheader source,
      get?_headers hheader, fills_structFields hs⟩

/-- A struct that holds itself in two ways, with an array of none and a run that takes two units. -/
theorem component_fills_cyclic :
    let text := "struct Node \x7b\n Node next[2];\n Leaf leaves[3];\n Gone gone[0];\n byte a : 3;\n byte b : 6;\n\x7d\nstruct Leaf //$()$\n\x7b short x[2]; Node back; \x7d"
    let node : Struct := ⟨"Node", .user, [
      ⟨"next", "Node", .struct, some 2, none, false, ""⟩,
      ⟨"leaves", "Leaf", .struct, some 3, none, false, ""⟩,
      ⟨"gone", "Gone", .struct, some 0, none, false, ""⟩,
      ⟨"a", "byte", .int false .w8, none, some 3, false, ""⟩,
      ⟨"b", "byte", .int false .w8, none, some 6, false, ""⟩], ""⟩
    let leaf : Struct := ⟨"Leaf", .header, [
      ⟨"x", "short", .int true .w16, some 2, none, false, ""⟩,
      ⟨"back", "Node", .struct, none, none, false, ""⟩], ""⟩
    let d : Document := ⟨{}, [node, leaf]⟩
    Document.parse {} text = .ok d ∧ d.struct? "Node" = some node ∧ d.struct? "Leaf" = some leaf ∧
      d.structSize "Node" = 14 ∧ d.structSize "Leaf" = 6 ∧
      (∃ cs k, (d.toCatalog "").components = some cs ∧ cs.schemas.get? "Node" = some k ∧
        Fills d node k.fields) ∧
      ∃ cs fields, (d.toCatalog "").components = some cs ∧
        cs.headers.get? commonHeader = some fields ∧ Fills d leaf fields := by
  intro text node leaf d
  have hblank : text.toList.all Text.isBlank = false := by decide +kernel
  have hdocument : documentOf {} text = d := by decide +kernel
  have hparse : Document.parse {} text = .ok d :=
    hdocument ▸ parse_eq_documentOf {} hblank
  have hnode : d.struct? "Node" = some node := by decide
  have hleaf : d.struct? "Leaf" = some leaf := by decide
  refine ⟨hparse, hnode, hleaf, by cbv, by cbv, ?_, ?_⟩
  · exact (component_fills hparse "" (s := node) hnode).1 rfl
  · exact (component_fills hparse "" (s := leaf) hleaf).2 rfl

end Idl

end Datagram
