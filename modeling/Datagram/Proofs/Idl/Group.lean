import Datagram.Proofs.Idl.Cell
import Datagram.Proofs.Idl.Member

/-! # Storage units read back

The cells of a storage unit fill it, so they are one group, and a bit field behind them begins a
group of its own. A group becomes the field that its members were written for. -/

namespace Datagram.Idl

/-! ## Groups -/

/-- The bit field of a cell. -/
def cellMember (s : Scalar) (c : Cell) : Member :=
  writtenMember s c.name (some c.width) c.description

/-- Every bit field takes a bit. -/
def Proper (ms : List Member) : Prop := ∀ m ∈ ms, ∀ w, m.bitWidth = some w → 0 < w

theorem groupsAfter_single {m : Member} (h : m.bitWidth = none) (run : Option Run)
    (ms : List Member) :
    groupsAfter run (m :: ms) = Run.close run ++ .single m :: groupsAfter none ms := by
  rw [groupsAfter.eq_def]
  simp only [h]

theorem groupsAfter_first {m : Member} {w : Nat} (h : m.bitWidth = some w) (ms : List Member) :
    groupsAfter none (m :: ms) = groupsAfter (some ⟨m, [], w⟩) ms := by
  rw [groupsAfter.eq_def]
  simp only [h]

theorem groupsAfter_next {m : Member} {w : Nat} (h : m.bitWidth = some w) (r : Run)
    (ms : List Member) :
    groupsAfter (some r) (m :: ms) =
      if r.accepts m w then groupsAfter (some (r.add m w)) ms
      else .bits r.first r.rest :: groupsAfter (some ⟨m, [], w⟩) ms := by
  rw [groupsAfter.eq_def]
  simp only [h]

theorem groupsAfter_full {r : Run} (h : r.used = r.first.primitive.bits) {ms : List Member}
    (hm : Proper ms) : groupsAfter (some r) ms = .bits r.first r.rest :: groupsAfter none ms := by
  cases ms with
  | nil => rfl
  | cons m ms =>
    cases hw : m.bitWidth with
    | none =>
      rw [groupsAfter_single hw, groupsAfter_single hw]
      rfl
    | some w =>
      have hpos := hm m List.mem_cons_self w hw
      have hfull : r.accepts m w = false := by
        rw [Run.accepts, Bool.and_eq_false_iff]
        by_cases hp : r.first.primitive = m.primitive
        · right
          rw [decide_eq_false_iff_not, ← hp, h]
          omega
        · left
          exact decide_eq_false hp
      rw [groupsAfter_next hw, groupsAfter_first hw, if_neg (Bool.eq_false_iff.mp hfull)]

theorem groupsAfter_add {r : Run} {s : Scalar} (hr : r.first.primitive = primitiveOf s) {c : Cell}
    (hc : r.used + c.width ≤ s.bits) (ms : List Member) :
    groupsAfter (some r) (cellMember s c :: ms) =
      groupsAfter (some (r.add (cellMember s c) c.width)) ms := by
  have hw : (cellMember s c).bitWidth = some c.width := rfl
  have hp : (cellMember s c).primitive = primitiveOf s := rfl
  have haccepts : r.accepts (cellMember s c) c.width = true := by
    rw [Run.accepts, hp, hr, bits_primitiveOf, decide_eq_true rfl, Bool.true_and]
    exact decide_eq_true hc
  rw [groupsAfter_next hw, if_pos haccepts]

/-- Cells that fill a storage unit complete the run that they lie in. -/
theorem groupsAfter_cells {r : Run} {s : Scalar} (hr : r.first.primitive = primitiveOf s)
    {cs : List Cell} (hc : Tiles r.used s.bits cs) {ms : List Member} (hm : Proper ms) :
    groupsAfter (some r) (cs.map (cellMember s) ++ ms) =
      .bits r.first (r.rest ++ cs.map (cellMember s)) :: groupsAfter none ms := by
  -- The run has taken the bits in front of the cells that are left, so these tile its rest.
  induction cs generalizing r with
  | nil =>
    have hused : r.used = r.first.primitive.bits := by
      rw [hr, bits_primitiveOf]
      exact hc
    rw [List.map_nil, List.nil_append, List.append_nil, groupsAfter_full hused hm]
  | cons c cs ih =>
    obtain ⟨_, _, hcs⟩ := hc
    let r' : Run := r.add (cellMember s c) c.width
    have hr' : r'.first.primitive = primitiveOf s := hr
    have hcs' : Tiles r'.used s.bits cs := hcs
    rw [List.map_cons, List.cons_append, groupsAfter_add hr hcs.le, ih hr' hcs']
    simp [r', Run.add]

theorem groups_cells {s : Scalar} {c : Cell} {cs : List Cell} (hc : Tiles 0 s.bits (c :: cs))
    {ms : List Member} (hm : Proper ms) :
    groups ((c :: cs).map (cellMember s) ++ ms) =
      .bits (cellMember s c) (cs.map (cellMember s)) :: groups ms := by
  have hw : (cellMember s c).bitWidth = some c.width := rfl
  have hcs : Tiles c.width s.bits cs := by
    have := hc.2.2
    rwa [Nat.zero_add] at this
  let r : Run := ⟨cellMember s c, [], c.width⟩
  have hr : r.first.primitive = primitiveOf s := rfl
  rw [List.map_cons, List.cons_append, groups, groupsAfter_first hw]
  exact groupsAfter_cells hr hcs hm

theorem groups_plain {ps : List Member} (hp : ∀ m ∈ ps, m.bitWidth = none) (ms : List Member) :
    groups (ps ++ ms) = ps.map .single ++ groups ms := by
  induction ps with
  | nil => rfl
  | cons p ps ih =>
    have hnone := hp p List.mem_cons_self
    have ih := ih fun m hm => hp m (List.mem_cons_of_mem _ hm)
    rw [groups] at ih
    rw [List.cons_append, groups, groupsAfter_single hnone, ih]
    rfl

/-- A group that is no storage unit is a member without a bit width. -/
theorem plain_of_single_mem_groups {run : Option Run} {ms : List Member} {m : Member}
    (h : .single m ∈ groupsAfter run ms) : m ∈ ms ∧ m.bitWidth = none := by
  induction ms generalizing run with
  | nil =>
    cases run with
    | none => cases h
    | some r =>
      have := List.mem_singleton.mp h
      cases this
  | cons p ms ih =>
    have htail : ∀ {run}, .single m ∈ groupsAfter run ms → m ∈ p :: ms ∧ m.bitWidth = none :=
      fun h => ⟨List.mem_cons_of_mem _ (ih h).1, (ih h).2⟩
    cases hw : p.bitWidth with
    | none =>
      rw [groupsAfter_single hw] at h
      rcases List.mem_append.mp h with h | h
      · cases run with
        | none => cases h
        | some r =>
          have := List.mem_singleton.mp h
          cases this
      · rcases List.mem_cons.mp h with h | h
        · cases h
          exact ⟨List.mem_cons_self, hw⟩
        · exact htail h
    | some w =>
      cases run with
      | none =>
        rw [groupsAfter_first hw] at h
        exact htail h
      | some r =>
        rw [groupsAfter_next hw] at h
        split at h
        · exact htail h
        · rcases List.mem_cons.mp h with h | h
          · cases h
          · exact htail h

/-- A member without a bit width ends the run in front of it. -/
theorem groupsAfter_append_single {m : Member} (h : m.bitWidth = none) (run : Option Run)
    (before after : List Member) :
    groupsAfter run (before ++ m :: after) =
      groupsAfter run before ++ .single m :: groups after := by
  induction before generalizing run with
  | nil => exact groupsAfter_single h run after
  | cons k before ih =>
    rw [List.cons_append]
    cases hw : k.bitWidth with
    | none =>
      rw [groupsAfter_single hw, groupsAfter_single hw, ih, List.append_assoc, List.cons_append]
    | some w =>
      cases run with
      | none =>
        rw [groupsAfter_first hw, groupsAfter_first hw]
        exact ih _
      | some r =>
        rw [groupsAfter_next hw, groupsAfter_next hw]
        split
        · exact ih _
        · rw [ih]
          rfl

/-- Groups have the members in their order. -/
theorem flatMap_members_groupsAfter (run : Option Run) (ms : List Member) :
    (groupsAfter run ms).flatMap Group.members = (Run.close run).flatMap Group.members ++ ms := by
  induction ms generalizing run with
  | nil => exact (List.append_nil _).symm
  | cons m ms ih =>
    cases hw : m.bitWidth with
    | none =>
      rw [groupsAfter_single hw, List.flatMap_append, List.flatMap_cons, ih]
      rfl
    | some w =>
      cases run with
      | none =>
        rw [groupsAfter_first hw, ih]
        rfl
      | some r =>
        rw [groupsAfter_next hw]
        split
        · rw [ih]
          simp [Run.close, Run.add, Group.members]
        · rw [List.flatMap_cons, ih]
          simp [Run.close, Group.members]

/-- A bit field lies in a storage unit. -/
theorem unit_of_mem {ms : List Member} {m : Member} (hm : m ∈ ms) {w : Nat}
    (hw : m.bitWidth = some w) : ∃ first rest, .bits first rest ∈ groups ms ∧ m ∈ first :: rest := by
  have hall : (groups ms).flatMap Group.members = ms := flatMap_members_groupsAfter none ms
  rw [← hall, List.mem_flatMap] at hm
  obtain ⟨g, hg, hmem⟩ := hm
  cases g with
  | single k =>
    obtain rfl : m = k := List.mem_singleton.mp hmem
    have hnone := (plain_of_single_mem_groups hg).2
    rw [hw] at hnone
    cases hnone
  | bits first rest => exact ⟨first, rest, hg, hmem⟩

/-! ## Fields -/

/-- A field of a number, as an import makes it. -/
def plainField (e : Endian) (s : Scalar) (name description : String) : Datagram.Field :=
  ((Field.new name (.scalar s)).withEndian e).withDescription (noteText description)

/-- The field of a storage unit with cells. -/
def storageImage (e : Endian) (s : Scalar) (cs : List Cell) : Datagram.Field :=
  ((Field.new ("_".intercalate (cs.map Cell.name)) (.scalar s)).withEndian e).withBits
    (cs.map Cell.bit)

variable {structs : List Struct} {e : Endian}

theorem flatten_plain (s : Scalar) (name description : String) :
    flatten structs e "" (.single (writtenMember s name none description)) =
      [plainField e s name description] := by
  have hp : (writtenMember s name none description).primitive.scalar? = some s :=
    scalar?_primitiveOf s
  have ha : (writtenMember s name none description).arraySize = none := rfl
  rw [flatten]
  simp only [hp, scalarFields, ha, String.empty_append]
  rfl

theorem bitMembersFrom_cells {s : Scalar} {start stop : Nat} {cs : List Cell}
    (h : Tiles start stop cs) : bitMembersFrom start (cs.map (cellMember s)) = cs.map Cell.bit := by
  induction cs generalizing start with
  | nil => rfl
  | cons c cs ih =>
    obtain ⟨hstart, hpos, hcs⟩ := h
    have hw : max ((cellMember s c).bitWidth.getD 1) 1 = c.width := Nat.max_eq_left hpos
    rw [List.map_cons, bitMembersFrom, hw, ih hcs, List.map_cons, ← hstart]
    rfl

theorem flatten_cells {s : Scalar} {c : Cell} {cs : List Cell} (h : Tiles 0 s.bits (c :: cs)) :
    flatten structs e "" (.bits (cellMember s c) (cs.map (cellMember s))) =
      [storageImage e s (c :: cs)] := by
  have hp : (cellMember s c).primitive.scalar? = some s := scalar?_primitiveOf s
  have hbits := bitMembersFrom_cells (s := s) h
  rw [List.map_cons] at hbits
  have hnames : (cellMember s c :: cs.map (cellMember s)).map Member.name =
      (c :: cs).map Cell.name := by
    rw [← List.map_cons, List.map_map]
    rfl
  rw [flatten]
  simp only [hp, storageField, hbits, hnames, String.empty_append]
  rfl

end Datagram.Idl
