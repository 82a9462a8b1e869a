import Datagram.Proofs.Idl.Expansion
import Datagram.Idl.Import

/-! # Documents without cycles

A struct is not expanded within itself. Where no struct leads back to itself this cuts nothing off: all
that a struct leads to is still there when it is looked up, however often it occurs. So sizes and fields
are those of the recursion that looks every struct up in the whole document, and this recursion ends. -/

namespace Datagram.Idl

/-! ## The recursion without a cut

Sizes and fields where every struct is looked up in the whole document, down to a depth. There is no
result where a struct lies deeper. -/

def Member.totalSize? (sizeOf : String → Option Nat) (m : Member) : Option Nat :=
  if m.bitWidth.isSome then some 0
  else do
    let size ← if m.isStruct then sizeOf m.typeName else some m.primitive.size
    return size * m.count

def Group.size? (sizeOf : String → Option Nat) : Group → Option Nat
  | .single m => m.totalSize? sizeOf
  | .bits first _ => some first.primitive.size

def uncutSize (structs : List Struct) : Nat → String → Option Nat
  | 0, _ => none
  | depth + 1, name =>
    match findStruct? structs name with
    | none => some 0
    | some s => do
      let sizes ← (groups s.members).mapM (Group.size? (uncutSize structs depth))
      return sizes.sum

def uncutFlatten (structs : List Struct) (endian : Endian) :
    Nat → String → Group → Option (List Datagram.Field)
  | 0, _, _ => none
  | _ + 1, pre, .bits first rest =>
    match first.primitive.scalar? with
    | some scalar => some [storageField endian pre scalar (first :: rest)]
    | none => some []
  | depth + 1, pre, .single m =>
    match m.primitive.scalar? with
    | some scalar => some (scalarFields endian pre scalar m)
    | none =>
      match findStruct? structs m.typeName with
      | none => some []
      | some s => do
        let elements ← (List.range m.count).mapM fun i => do
          let fields ←
            (groups s.members).mapM (uncutFlatten structs endian depth (innerPrefix pre m i))
          return fields.flatten
        return elements.flatten

namespace Document

variable (d : Document) (depth : Nat)

def uncutGroups (gs : List Group) : Option (List Datagram.Field) := do
  let fields ← gs.mapM (uncutFlatten d.structs d.directives.endian depth "")
  return fields.flatten

def uncutHeaderGroup (idText : String) (g : Group) : Option (List Datagram.Field) := do
  let fields ← uncutFlatten d.structs d.directives.endian depth "" g
  match g with
  | .single m => return if m.holdsMessageId then withFirstValue idText fields else fields
  | .bits .. => return fields

def uncutHeaderFields (h : Struct) (idText : String) : Option (List Datagram.Field) := do
  let fields ← (groups h.members).mapM (d.uncutHeaderGroup depth idText)
  return fields.flatten

def uncutRequestLayout (s : Struct) (idText : String) : Option Layout :=
  match d.header? with
  | none => do
    let payload ← d.uncutGroups depth (groups s.members)
    return ⟨[], payload⟩
  | some h => do
    let (headers, others) := (groups s.members).partition (isHeaderGroup h)
    let header ← headers.mapM fun _ => d.uncutHeaderFields depth h idText
    let payload ← d.uncutGroups depth others
    return ⟨header.flatten, payload⟩

def uncutSchemas : Option (Dict Component) :=
  d.userStructs.foldlM
    (fun dict s =>
      if dict.contains s.name then some dict
      else do
        let fields ← d.uncutGroups depth (groups s.members)
        return dict.insert s.name { description := s.comment, fields })
    ∅

def uncutComponents : Option Components := do
  let schemas ← d.uncutSchemas depth
  match d.header? with
  | some h =>
    let fields ← d.uncutGroups depth (groups h.members)
    return ⟨schemas, Dict.empty.insert commonHeader fields⟩
  | none => return ⟨schemas, ∅⟩

def uncutMessages : Option (Dict Message) := do
  let entries ← d.messageStructs.mapM fun (s, id, idText) => do
    let request ← d.uncutRequestLayout depth s idText
    return (messageKey id s.name, { Message.ofRequest request with description := s.comment })
  return Dict.ofList entries

end Document

/-! ## Structs that are looked up -/

/-- No struct leads to itself. -/
def Acyclic (structs : List Struct) : Prop :=
  ∀ name, ¬ Relation.TransGen (Refers structs) name name

/-- The struct of a name is looked up among the structs that are left, in the document or within a
struct that was found before. -/
inductive LooksUp (structs : List Struct) : List Struct → String → Prop where
  | top (name) : LooksUp structs structs name
  | inside {left name s m} : LooksUp structs left name → findStruct? left name = some s →
      m ∈ s.members → m.isStruct = true → LooksUp structs (without left name) m.typeName

/-- All that a struct leads to is left. -/
def Intact (structs left : List Struct) (name : String) : Prop :=
  ∀ inner, Relation.ReflTransGen (Refers structs) name inner →
    findStruct? left inner = findStruct? structs inner

theorem Intact.find? {structs left : List Struct} {name : String} (h : Intact structs left name) :
    findStruct? left name = findStruct? structs name := h name .refl

/-- Within a struct that does not lead back to itself, it is not missed. -/
theorem Intact.inside {structs left : List Struct} {name inner : String}
    (h : Intact structs left name) (hedge : Refers structs name inner) (ha : Acyclic structs) :
    Intact structs (without left name) inner := by
  intro other hpath
  have hne : other ≠ name := by
    rintro rfl
    exact ha other (Relation.TransGen.head' hedge hpath)
  rw [findStruct?_without hne]
  exact h other (.head hedge hpath)

/-- Structs are without cycles if each has members of structs with lower ranks only. -/
theorem acyclic_of_rank {structs : List Struct} (rank : String → Nat)
    (h : ∀ s ∈ structs, ∀ m ∈ s.members, m.isStruct = true → rank m.typeName < rank s.name) :
    Acyclic structs := by
  have hedge : ∀ {a b}, Refers structs a b → rank b < rank a := by
    rintro a b ⟨s, hs, m, hm, hstruct, rfl⟩
    rw [← name_of_findStruct? hs]
    exact h s (List.mem_of_find?_eq_some hs) m hm hstruct
  have hpath : ∀ {a b}, Relation.TransGen (Refers structs) a b → rank b < rank a := by
    intro a b hpath
    induction hpath with
    | single hab => exact hedge hab
    | tail _ hbc ih => exact (hedge hbc).trans ih
  exact fun name hcycle => Nat.lt_irrefl _ (hpath hcycle)

section Lookup

variable {structs left : List Struct} {name : String}

theorem LooksUp.intact (ha : Acyclic structs) (h : LooksUp structs left name) :
    Intact structs left name := by
  induction h with
  | top name => exact fun _ _ => rfl
  | inside _ hs hm hstruct ih =>
    rw [ih.find?] at hs
    exact ih.inside ⟨_, hs, _, hm, hstruct, rfl⟩ ha

theorem LooksUp.find? (ha : Acyclic structs) (h : LooksUp structs left name) :
    findStruct? left name = findStruct? structs name := (h.intact ha).find?

/-- The structs that a group refers to are looked up among the structs that are left. -/
def Group.LooksUp (structs left : List Struct) (g : Group) : Prop :=
  ∀ m, g = .single m → m.isStruct = true → Idl.LooksUp structs left m.typeName

theorem LooksUp.group (h : LooksUp structs left name) {s : Struct}
    (hs : findStruct? left name = some s) {g : Group} (hg : g ∈ groups s.members) :
    g.LooksUp structs (without left name) := by
  rintro m rfl hstruct
  exact h.inside hs (plain_of_single_mem_groups hg).1 hstruct

/-! ## Results that are there -/

theorem mapM_eq_some {α β : Type} {f : α → Option β} {g : α → β} {xs : List α}
    (h : ∀ x ∈ xs, f x = some (g x)) : xs.mapM f = some (xs.map g) := by
  induction xs with
  | nil => rfl
  | cons x xs ih =>
    rw [List.forall_mem_cons] at h
    rw [List.mapM_cons, h.1, ih h.2]
    rfl

theorem foldlM_eq_some {α β : Type} {f : β → α → Option β} {g : β → α → β} {xs : List α} {b : β}
    (h : ∀ x ∈ xs, ∀ b, f b x = some (g b x)) : xs.foldlM f b = some (xs.foldl g b) := by
  induction xs generalizing b with
  | nil => rfl
  | cons x xs ih =>
    rw [List.forall_mem_cons] at h
    rw [List.foldlM_cons, h.1]
    exact ih h.2

/-! ## Sizes -/

theorem totalSize?_eq {sizeOf : String → Nat} {sizeOf? : String → Option Nat} {m : Member}
    (h : m.isStruct = true → sizeOf? m.typeName = some (sizeOf m.typeName)) :
    m.totalSize? sizeOf? = some (m.totalSize sizeOf) := by
  rw [Member.totalSize?, Member.totalSize, Member.elementSize]
  by_cases hbits : m.bitWidth.isSome = true
  · rw [if_pos hbits, if_pos hbits]
  · rw [if_neg hbits, if_neg hbits]
    by_cases hstruct : m.isStruct = true
    · rw [if_pos hstruct, if_pos hstruct, h hstruct]
      rfl
    · rw [if_neg hstruct, if_neg hstruct]
      rfl

theorem size?_eq {sizeOf : String → Nat} {sizeOf? : String → Option Nat} {g : Group}
    (h : ∀ m, g = .single m → m.isStruct = true → sizeOf? m.typeName = some (sizeOf m.typeName)) :
    g.size? sizeOf? = some (g.size sizeOf) := by
  cases g with
  | single m => exact totalSize?_eq (h m rfl)
  | bits first rest => rfl

/-- Each struct that is entered is left out below it, so as deep as there are structs is deep enough. -/
theorem uncutSize_eq (ha : Acyclic structs) {depth : Nat} (hdepth : left.length < depth)
    (h : LooksUp structs left name) : uncutSize structs depth name = some (sizeIn left name) := by
  induction left using expansion_induction generalizing name depth with
  | step left ih =>
    obtain ⟨depth, rfl⟩ := Nat.exists_eq_add_of_lt hdepth
    rw [uncutSize, ← h.find? ha]
    cases hs : findStruct? left name with
    | none => rw [sizeIn_of_none hs]
    | some s =>
      have hinner : (without left name).length < left.length + depth :=
        (length_without_lt hs).trans_le (Nat.le_add_right _ _)
      have hsizes : (groups s.members).mapM (Group.size? (uncutSize structs (left.length + depth))) =
          some ((groups s.members).map (·.size (sizeIn (without left name)))) := by
        apply mapM_eq_some
        intro g hg
        apply size?_eq
        intro m hm hstruct
        exact ih name s hs hinner (h.group hs hg m hm hstruct)
      dsimp only
      rw [hsizes, sizeIn_of_some hs, Group.totalSize_eq_sum]
      rfl

/-! ## Fields -/

variable {e : Endian}

theorem uncutFlatten_eq (ha : Acyclic structs) {depth : Nat} (hdepth : left.length < depth)
    (pre : String) {g : Group} (h : g.LooksUp structs left) :
    uncutFlatten structs e depth pre g = some (flatten left e pre g) := by
  induction left using expansion_induction generalizing pre g depth with
  | step left ih =>
    obtain ⟨depth, rfl⟩ := Nat.exists_eq_add_of_lt hdepth
    cases g with
    | bits first rest =>
      rw [uncutFlatten, flatten]
      cases first.primitive.scalar? with
      | none => rfl
      | some scalar => rfl
    | single m =>
      rw [uncutFlatten]
      cases hp : m.primitive.scalar? with
      | some scalar => rw [flatten_of_scalar hp]
      | none =>
        have hlook := h m rfl (Member.isStruct_iff.mpr hp)
        rw [← hlook.find? ha]
        cases hs : findStruct? left m.typeName with
        | none => rw [flatten_of_none hp hs]
        | some s =>
          have hinner : (without left m.typeName).length < left.length + depth :=
            (length_without_lt hs).trans_le (Nat.le_add_right _ _)
          have hfields : ∀ i ∈ List.range m.count,
              (do
                let fields ← (groups s.members).mapM
                  (uncutFlatten structs e (left.length + depth) (innerPrefix pre m i))
                return fields.flatten : Option (List Datagram.Field)) =
              some ((groups s.members).flatMap
                (flatten (without left m.typeName) e (innerPrefix pre m i))) := by
            intro i _
            rw [mapM_eq_some fun g hg => ih m.typeName s hs hinner _ (hlook.group hs hg)]
            rfl
          dsimp only
          rw [mapM_eq_some hfields, flatten_of_some hp hs]
          rfl

end Lookup

/-! ## Documents -/

section Document

variable {d : Document} {s : Struct} {idText : String} {depth : Nat}

theorem uncutGroups_eq (ha : Acyclic d.structs) {left : List Struct} (hdepth : left.length < depth)
    {gs : List Group} (h : ∀ g ∈ gs, g.LooksUp d.structs left) :
    d.uncutGroups depth gs = some (gs.flatMap (flatten left d.directives.endian "")) := by
  rw [Document.uncutGroups, mapM_eq_some fun g hg => uncutFlatten_eq ha hdepth "" (h g hg)]
  rfl

/-- Within a struct of the document all other structs are left. -/
theorem looksUp_of_mem (hn : (d.structs.map Struct.name).Nodup) (hs : s ∈ d.structs) :
    ∀ g ∈ groups s.members, g.LooksUp d.structs (without d.structs s.name) :=
  fun _ hg => (LooksUp.top s.name).group (findStruct?_of_mem hn hs) hg

theorem length_without_le (structs : List Struct) (name : String) :
    (without structs name).length ≤ structs.length := List.length_filter_le _ _

theorem uncut_structFields (ha : Acyclic d.structs) (hn : (d.structs.map Struct.name).Nodup)
    (hdepth : d.structs.length < depth) (hs : s ∈ d.structs) :
    d.uncutGroups depth (groups s.members) = some (d.structFields s) :=
  uncutGroups_eq ha ((length_without_le _ _).trans_lt hdepth) (looksUp_of_mem hn hs)

theorem uncutHeaderFields_eq (ha : Acyclic d.structs) (hn : (d.structs.map Struct.name).Nodup)
    (hdepth : d.structs.length < depth) (hs : s ∈ d.structs) :
    d.uncutHeaderFields depth s idText = some (d.headerFields s idText) := by
  have hleft := (length_without_le d.structs s.name).trans_lt hdepth
  have hgroup : ∀ g ∈ groups s.members, d.uncutHeaderGroup depth idText g =
      some (match g with
        | .single m =>
          if m.holdsMessageId then
            withFirstValue idText
              (flatten (without d.structs s.name) d.directives.endian "" g)
          else flatten (without d.structs s.name) d.directives.endian "" g
        | .bits .. => flatten (without d.structs s.name) d.directives.endian "" g) := by
    intro g hg
    rw [Document.uncutHeaderGroup, uncutFlatten_eq ha hleft "" (looksUp_of_mem hn hs g hg)]
    cases g with
    | single m => rfl
    | bits first rest => rfl
  rw [Document.uncutHeaderFields, mapM_eq_some hgroup]
  rfl

theorem uncutRequestLayout_eq (ha : Acyclic d.structs) (hn : (d.structs.map Struct.name).Nodup)
    (hdepth : d.structs.length < depth) (s : Struct) (idText : String) :
    d.uncutRequestLayout depth s idText = some (d.requestLayout s idText) := by
  have hpayload : ∀ gs, d.uncutGroups depth gs =
      some (gs.flatMap (flatten d.structs d.directives.endian "")) :=
    fun gs => uncutGroups_eq ha hdepth fun _ _ m _ _ => .top m.typeName
  rw [Document.uncutRequestLayout, Document.requestLayout]
  cases hh : d.header? with
  | none =>
    dsimp only
    rw [hpayload]
    rfl
  | some h =>
    have hmem : h ∈ d.structs := List.mem_of_find?_eq_some hh
    dsimp only
    rw [mapM_eq_some fun _ _ => uncutHeaderFields_eq ha hn hdepth hmem, hpayload]
    rfl

theorem uncutSchemas_eq (ha : Acyclic d.structs) (hn : (d.structs.map Struct.name).Nodup)
    (hdepth : d.structs.length < depth) : d.uncutSchemas depth = some d.schemas := by
  apply foldlM_eq_some
  intro s hs dict
  rw [uncut_structFields ha hn hdepth (List.mem_filter.mp hs).1]
  split
  · rfl
  · rfl

theorem uncutComponents_eq (ha : Acyclic d.structs) (hn : (d.structs.map Struct.name).Nodup)
    (hdepth : d.structs.length < depth) : d.uncutComponents depth = some d.components := by
  rw [Document.uncutComponents, Document.components, uncutSchemas_eq ha hn hdepth]
  cases hh : d.header? with
  | none => rfl
  | some h =>
    have hmem : h ∈ d.structs := List.mem_of_find?_eq_some hh
    simp only [uncut_structFields ha hn hdepth hmem]
    rfl

theorem uncutMessages_eq (ha : Acyclic d.structs) (hn : (d.structs.map Struct.name).Nodup)
    (hdepth : d.structs.length < depth) : d.uncutMessages depth = some d.messages := by
  have hentries : ∀ x ∈ d.messageStructs,
      (do
        let request ← d.uncutRequestLayout depth x.1 x.2.2
        return (messageKey x.2.1 x.1.name,
          { Message.ofRequest request with description := x.1.comment }) :
        Option (String × Message)) =
      some (messageKey x.2.1 x.1.name,
        { Message.ofRequest (d.requestLayout x.1 x.2.2) with description := x.1.comment }) := by
    intro x _
    rw [uncutRequestLayout_eq ha hn hdepth]
    rfl
  rw [Document.uncutMessages, mapM_eq_some hentries]
  rfl

/-- In a document without cycles nothing is cut off: a struct is still there whenever it is looked up,
and the recursion that looks it up in the whole document ends, no deeper than there are structs, with the
same sizes, components and messages. -/
theorem uncut_of_acyclic (hn : (d.structs.map Struct.name).Nodup) (ha : Acyclic d.structs) :
    (∀ left name, LooksUp d.structs left name → findStruct? left name = d.struct? name) ∧
      ∀ depth, d.structs.length < depth →
        (∀ name, uncutSize d.structs depth name = some (d.structSize name)) ∧
        (∀ m : Member,
          m.totalSize? (uncutSize d.structs depth) = some (m.totalSize d.structSize)) ∧
        d.uncutComponents depth = some d.components ∧ d.uncutMessages depth = some d.messages := by
  refine ⟨fun left name h => h.find? ha, fun depth hdepth => ?_⟩
  have hsize : ∀ name, uncutSize d.structs depth name = some (d.structSize name) :=
    fun name => uncutSize_eq ha hdepth (.top name)
  refine ⟨hsize, fun m => ?_, ?_, ?_⟩
  · exact totalSize?_eq fun _ => hsize m.typeName
  · exact uncutComponents_eq ha hn hdepth
  · exact uncutMessages_eq ha hn hdepth

end Document

/-- Two ways from one struct to another, a struct in an array of structs, and a header. -/
theorem uncut_of_acyclic_diamond :
    let inner := fun name type size => (⟨name, type, .struct, size, none, false, ""⟩ : Member)
    let number := fun name => (⟨name, "word", .int false .w16, none, none, false, ""⟩ : Member)
    let header : Struct := ⟨"Head", .header, [number "MsgID", inner "origin" "Point" none], ""⟩
    let point : Struct := ⟨"Point", .user, [number "x"], ""⟩
    let line : Struct :=
      ⟨"Line", .user, [inner "start" "Point" none, inner "stop" "Point" none], ""⟩
    let shape : Struct :=
      ⟨"Shape", .user, [inner "lines" "Line" (some 2), inner "center" "Point" none], ""⟩
    let draw : Struct := ⟨"Draw", .message 5 "5",
      [inner "head" "Head" none, inner "shape" "Shape" none, inner "axis" "Line" none], ""⟩
    let d : Document := ⟨{}, [header, point, line, shape, draw]⟩
    (d.structs.map Struct.name).Nodup ∧ Acyclic d.structs ∧
      (∀ left name, LooksUp d.structs left name → findStruct? left name = d.struct? name) ∧
      uncutSize d.structs 6 "Shape" = some 10 ∧
      (inner "lines" "Line" (some 2)).totalSize? (uncutSize d.structs 6) = some 8 ∧
      d.uncutComponents 6 = some d.components ∧ d.uncutMessages 6 = some d.messages := by
  intro inner number header point line shape draw d
  have hn : (d.structs.map Struct.name).Nodup := by decide
  have ha : Acyclic d.structs := by
    -- A struct has only members of structs that stand further in front in this list.
    apply acyclic_of_rank fun name => ["Point", "Line", "Shape", "Head", "Draw"].idxOf name
    decide
  obtain ⟨hfind, huncut⟩ := uncut_of_acyclic hn ha
  obtain ⟨hsize, htotal, hcomponents, hmessages⟩ := huncut 6 (by decide)
  have hshape : d.structSize "Shape" = 10 := by cbv
  have hlines : (inner "lines" "Line" (some 2)).totalSize d.structSize = 8 := by cbv
  exact ⟨hn, ha, hfind, hshape ▸ hsize "Shape", hlines ▸ htotal _, hcomponents, hmessages⟩

end Datagram.Idl
