import Datagram.Proofs.Idl.Packing
import Mathlib.Data.List.Chain

/-! # Greedy packing

Groups keep the members in their order, a storage unit has bit fields of one type that fit in it, and
it closes only before a member that it has no room for. The counter of its bits never needs more than
32 bits. -/

namespace Datagram.Idl

/-! ## Storage units that are full -/

/-- A storage unit in front of another one has no room for the first member of that one. -/
def Group.ClosesBefore : Group → Group → Prop
  | .bits first rest, .bits next _ =>
    next.primitive ≠ first.primitive ∨
      first.primitive.bits < totalWidth (first :: rest) + next.width
  | _, _ => True

/-- Groups that have the members in their order, with as many bit fields in a storage unit as it has
room for. -/
structure GreedilyPacked (ms : List Member) (gs : List Group) : Prop where
  members : gs.flatMap Group.members = ms
  nonempty : ∀ g ∈ gs, g.members ≠ []
  plain : ∀ m, .single m ∈ gs → m.bitWidth = none
  shares : ∀ first rest, .bits first rest ∈ gs → Shares first.primitive (first :: rest)
  maximal : gs.IsChain Group.ClosesBefore

theorem Group.members_ne_nil (g : Group) : g.members ≠ [] := by
  cases g with
  | single m => exact List.cons_ne_nil _ _
  | bits first rest => exact List.cons_ne_nil _ _

theorem closesBefore_single (g : Group) (m : Member) : g.ClosesBefore (.single m) := by
  cases g with
  | single k => exact trivial
  | bits first rest => exact trivial

/-- An open run becomes the first group, with members that follow it. -/
theorem head_groupsAfter (r : Run) (ms : List Member) :
    ∃ more gs, groupsAfter (some r) ms = .bits r.first more :: gs := by
  induction ms generalizing r with
  | nil => exact ⟨r.rest, [], rfl⟩
  | cons m ms ih =>
    cases hw : m.bitWidth with
    | none => exact ⟨r.rest, _, groupsAfter_single hw (some r) ms⟩
    | some w =>
      rw [groupsAfter_next hw]
      by_cases ha : r.accepts m w = true
      · rw [if_pos ha]
        exact ih (r.add m w)
      · rw [if_neg ha]
        exact ⟨r.rest, _, rfl⟩

/-- A run that does not take a bit field has no room for it. -/
theorem closesBefore_of_not_accepts {r : Run} (hr : r.Open) {m : Member} {w : Nat}
    (hw : m.bitWidth = some w) (ha : ¬ r.accepts m w = true) (more : List Member) :
    Group.ClosesBefore (.bits r.first r.rest) (.bits m more) := by
  by_cases hp : m.primitive = r.first.primitive
  · right
    rw [← hr.used, Member.width_of_bitWidth hw, ← hp]
    rw [Run.accepts, Bool.and_eq_true, decide_eq_true_eq, decide_eq_true_eq, not_and] at ha
    exact Nat.lt_of_not_le (ha hp.symm)
  · exact Or.inl hp

theorem isChain_groupsAfter {run : Option Run} (hr : FindsOpen run) {ms : List Member}
    (hm : ∀ m ∈ ms, m.Sound) : (groupsAfter run ms).IsChain Group.ClosesBefore := by
  refine packing_induction (P := fun run ms => (groupsAfter run ms).IsChain Group.ClosesBefore)
    ?nil ?single ?first ?take ?close hr hm
  case nil =>
    intro run _
    cases run with
    | none => exact List.isChain_nil
    | some r => exact List.isChain_singleton _
  case single =>
    intro run m ms _ hw ih
    have hsingle : (.single m :: groupsAfter none ms).IsChain Group.ClosesBefore :=
      List.isChain_cons.mpr ⟨fun _ _ => trivial, ih⟩
    rw [groupsAfter_single hw]
    cases run with
    | none => exact hsingle
    | some r =>
      refine List.isChain_cons.mpr ⟨?_, hsingle⟩
      rintro _ ⟨⟩
      exact closesBefore_single _ m
  case first =>
    intro m ms w hw ih
    rw [groupsAfter_first hw]
    exact ih
  case take =>
    intro r m ms w _ hw ha ih
    rw [groupsAfter_next hw, if_pos ha]
    exact ih
  case close =>
    intro r m ms w hopen hw ha ih
    rw [groupsAfter_next hw, if_neg ha]
    refine List.isChain_cons.mpr ⟨?_, ih⟩
    -- The storage unit behind it begins with the member that did not fit.
    obtain ⟨more, gs, hgs⟩ := head_groupsAfter ⟨m, [], w⟩ ms
    rw [hgs]
    rintro _ ⟨⟩
    exact closesBefore_of_not_accepts hopen hw ha more

theorem greedilyPacked_groups {ms : List Member} (hm : ∀ m ∈ ms, m.Sound) :
    GreedilyPacked ms (groups ms) := by
  constructor
  · exact flatMap_members_groupsAfter none ms
  · exact fun g _ => g.members_ne_nil
  · exact fun m h => (plain_of_single_mem_groups h).2
  · exact fun first rest h => shares_of_mem_groups hm h
  · exact isChain_groupsAfter findsOpen_none hm

/-! ## The only greedy packing -/

namespace GreedilyPacked

variable {m : Member} {ms : List Member} {g : Group} {gs : List Group}

theorem tail (h : GreedilyPacked ms (g :: gs)) : GreedilyPacked (gs.flatMap Group.members) gs where
  members := rfl
  nonempty k hk := h.nonempty k (List.mem_cons_of_mem _ hk)
  plain m hm := h.plain m (List.mem_cons_of_mem _ hm)
  shares first rest hg := h.shares first rest (List.mem_cons_of_mem _ hg)
  maximal := (List.isChain_cons.mp h.maximal).2

theorem eq_nil (h : GreedilyPacked [] gs) : gs = [] := by
  cases gs with
  | nil => rfl
  | cons g gs =>
    have hmembers := h.members
    rw [List.flatMap_cons, List.append_eq_nil_iff] at hmembers
    exact absurd hmembers.1 g.members_ne_nil

/-- A group of greedily packed members that begins with a bit field is a storage unit. -/
theorem head_bits (h : GreedilyPacked (m :: ms) gs) (hw : m.bitWidth ≠ none) :
    ∃ more tail, gs = .bits m more :: tail := by
  cases gs with
  | nil => cases h.members
  | cons g tail =>
    have hmembers := h.members
    rw [List.flatMap_cons] at hmembers
    cases g with
    | single k =>
      obtain rfl : k = m := (List.cons.inj hmembers).1
      exact absurd (h.plain k List.mem_cons_self) hw
    | bits first more =>
      obtain rfl : first = m := (List.cons.inj hmembers).1
      exact ⟨more, tail, rfl⟩

/-- One that begins with another member is that member. -/
theorem head_single (h : GreedilyPacked (m :: ms) gs) (hw : m.bitWidth = none) :
    ∃ tail, gs = .single m :: tail ∧ GreedilyPacked ms tail := by
  cases gs with
  | nil => cases h.members
  | cons g tail =>
    have hmembers := h.members
    rw [List.flatMap_cons] at hmembers
    cases g with
    | single k =>
      obtain ⟨rfl, rfl⟩ := List.cons.inj hmembers
      exact ⟨tail, rfl, h.tail⟩
    | bits first more =>
      obtain rfl : first = m := (List.cons.inj hmembers).1
      have hpos := (h.shares first more List.mem_cons_self).width_pos first List.mem_cons_self
      rw [Member.width, hw] at hpos
      exact absurd hpos (Nat.lt_irrefl 0)

variable {r : Run} {more : List Member}

/-- A member that lies in the storage unit of a run is taken by the run. -/
theorem accepts (h : GreedilyPacked ms (.bits r.first (r.rest ++ m :: more) :: gs)) (hr : r.Open)
    {w : Nat} (hw : m.bitWidth = some w) : r.accepts m w = true := by
  have hshares := h.shares _ _ List.mem_cons_self
  have hp : m.primitive = r.first.primitive := hshares.primitive m (by simp)
  have hfits : totalWidth (r.first :: r.rest) + m.width ≤ r.first.primitive.bits := by
    have htotal : totalWidth (r.first :: (r.rest ++ m :: more)) =
        totalWidth (r.first :: r.rest) + m.width + totalWidth more := by
      simp [totalWidth, Nat.add_assoc]
    exact (Nat.le_add_right _ _).trans (htotal ▸ hshares.fits)
  rw [Run.accepts, Bool.and_eq_true, decide_eq_true_eq, decide_eq_true_eq, hr.used, hp,
    ← Member.width_of_bitWidth hw]
  exact ⟨rfl, hfits⟩

theorem not_accepts {next : List Member}
    (h : GreedilyPacked ms (.bits r.first r.rest :: .bits m next :: gs)) (hr : r.Open) {w : Nat}
    (hw : m.bitWidth = some w) : ¬ r.accepts m w = true := by
  have hcloses : Group.ClosesBefore (.bits r.first r.rest) (.bits m next) :=
    (List.isChain_cons.mp h.maximal).1 _ rfl
  rw [Run.accepts, Bool.and_eq_true, decide_eq_true_eq, decide_eq_true_eq, hr.used,
    ← Member.width_of_bitWidth hw]
  rintro ⟨hp, hfit⟩
  rcases hcloses with hne | hlt
  · exact hne hp.symm
  · rw [hp] at hlt
    exact absurd hfit (Nat.not_le_of_lt hlt)

end GreedilyPacked

/-- Members have no greedy packing but their groups, alone and behind the bit fields of a run. -/
structure PacksOnce (ms : List Member) : Prop where
  alone : ∀ gs, GreedilyPacked ms gs → gs = groupsAfter none ms
  behind : ∀ (r : Run) more gs, r.Open →
    GreedilyPacked (r.first :: (r.rest ++ ms)) (.bits r.first (r.rest ++ more) :: gs) →
    .bits r.first (r.rest ++ more) :: gs = groupsAfter (some r) ms

theorem packsOnce_nil : PacksOnce [] := by
  constructor
  · exact fun gs h => h.eq_nil
  · intro r more gs hr h
    have hmembers := h.members
    simp only [List.flatMap_cons, Group.members, List.cons_append, List.append_assoc,
      List.cons.injEq, true_and, List.append_cancel_left_eq, List.append_eq_nil_iff] at hmembers
    have htail := h.tail
    rw [hmembers.2] at htail
    rw [htail.eq_nil, hmembers.1, List.append_nil]
    rfl

namespace PacksOnce

variable {m : Member} {ms : List Member} {gs : List Group}

theorem first (h : PacksOnce ms) (hm : m.Sound) {w : Nat} (hw : m.bitWidth = some w)
    (hgs : GreedilyPacked (m :: ms) gs) : gs = groupsAfter (some ⟨m, [], w⟩) ms := by
  obtain ⟨more, tail, rfl⟩ := hgs.head_bits (by simp [hw])
  exact h.behind ⟨m, [], w⟩ more tail (open_first hm hw) hgs

theorem cons_alone (h : PacksOnce ms) (hm : m.Sound) (hgs : GreedilyPacked (m :: ms) gs) :
    gs = groupsAfter none (m :: ms) := by
  cases hw : m.bitWidth with
  | none =>
    obtain ⟨tail, rfl, htail⟩ := hgs.head_single hw
    rw [groupsAfter_single hw, h.alone tail htail]
    rfl
  | some w =>
    rw [groupsAfter_first hw]
    exact h.first hm hw hgs

/-- A run whose storage unit ends in front of a member. -/
theorem cons_behind_closed (h : PacksOnce ms) (hm : m.Sound) {r : Run} (hr : r.Open)
    (hgs : GreedilyPacked (r.first :: (r.rest ++ m :: ms)) (.bits r.first r.rest :: gs)) :
    .bits r.first r.rest :: gs = groupsAfter (some r) (m :: ms) := by
  have hmembers := hgs.members
  simp only [List.flatMap_cons, Group.members, List.cons_append, List.cons.injEq, true_and,
    List.append_cancel_left_eq] at hmembers
  have htail := hgs.tail
  rw [hmembers] at htail
  cases hw : m.bitWidth with
  | none =>
    have halone := h.cons_alone hm htail
    rw [groupsAfter_single hw] at halone ⊢
    rw [halone]
    rfl
  | some w =>
    obtain ⟨next, tail, rfl⟩ := htail.head_bits (by simp [hw])
    rw [groupsAfter_next hw, if_neg (hgs.not_accepts hr hw), ← h.first hm hw htail]

theorem cons (h : PacksOnce ms) (hm : m.Sound) : PacksOnce (m :: ms) where
  alone gs hgs := h.cons_alone hm hgs
  behind r more gs hr hgs := by
    cases more with
    | nil =>
      rw [List.append_nil] at hgs ⊢
      exact h.cons_behind_closed hm hr hgs
    | cons k more =>
      have hmembers := hgs.members
      simp only [List.flatMap_cons, Group.members, List.cons_append, List.append_assoc,
        List.cons.injEq, true_and, List.append_cancel_left_eq] at hmembers
      obtain ⟨rfl, _⟩ := hmembers
      have hpos := (hgs.shares _ _ List.mem_cons_self).width_pos k (by simp)
      cases hw : k.bitWidth with
      | none =>
        rw [Member.width, hw] at hpos
        exact absurd hpos (Nat.lt_irrefl 0)
      | some w =>
        have ha := hgs.accepts hr hw
        have hadd := h.behind (r.add k w) more gs (open_add hr hm hw ha)
        simp only [Run.add, List.append_assoc, List.singleton_append] at hadd
        rw [groupsAfter_next hw, if_pos ha]
        exact hadd hgs

end PacksOnce

theorem packsOnce {ms : List Member} (hm : ∀ m ∈ ms, m.Sound) : PacksOnce ms := by
  induction ms with
  | nil => exact packsOnce_nil
  | cons m ms ih =>
    rw [List.forall_mem_cons] at hm
    exact (ih hm.2).cons hm.1

/-! ## A counter of 32 bits -/

/-- The sum of a counter of 32 bits and a width, unless it overflows. -/
def countOn (used width : Nat) : Option Nat := counted (some (used + width))

/-- Whether a run takes a bit field. Only widths of one type are added up. -/
def Run.takes? (r : Run) (m : Member) (width : Nat) : Option Bool :=
  if r.first.primitive = m.primitive then
    (countOn r.used width).map fun sum => decide (sum ≤ m.primitive.bits)
  else some false

/-- The groups that are closed, and the run that is open. -/
structure Packing where
  closed : List Group
  run : Option Run

namespace Packing

/-- The next member packed with a counter of 32 bits, unless the counter overflows. -/
def step (p : Packing) (m : Member) : Option Packing :=
  match m.bitWidth, p.run with
  | none, run => some ⟨p.closed ++ Run.close run ++ [.single m], none⟩
  | some width, none => (countOn 0 width).map fun used => ⟨p.closed, some ⟨m, [], used⟩⟩
  | some width, some r => do
    if ← r.takes? m width then
      let used ← countOn r.used width
      return ⟨p.closed, some ⟨r.first, r.rest ++ [m], used⟩⟩
    else
      let used ← countOn 0 width
      return ⟨p.closed ++ [.bits r.first r.rest], some ⟨m, [], used⟩⟩

def finish (p : Packing) : List Group := p.closed ++ Run.close p.run

/-- What the groups are when more members follow. -/
def groupsWith (p : Packing) (ms : List Member) : List Group := p.closed ++ groupsAfter p.run ms

end Packing

/-- The groups of members as a counter of 32 bits finds them, unless it overflows. -/
def countedGroups (ms : List Member) : Option (List Group) :=
  (ms.foldlM Packing.step ⟨[], none⟩).map Packing.finish

theorem Primitive.bits_le (p : Primitive) : p.bits ≤ 64 := by
  cases p with
  | int signed w => exact Scalar.bits_le (.int signed w)
  | bool => decide
  | float => decide
  | double => decide
  | struct => decide

theorem countOn_of_le {used width : Nat} (hu : used ≤ 64) (hw : width ≤ 64) :
    countOn used width = some (used + width) := by
  have hsum : used + width < UInt32.size :=
    (Nat.add_le_add hu hw).trans_lt (by decide)
  rw [countOn, counted, Option.filter_some, if_pos (decide_eq_true hsum)]

theorem Member.Sound.width_le {m : Member} (hm : m.Sound) {w : Nat} (hw : m.bitWidth = some w) :
    w ≤ 64 :=
  (hm w hw).2.2.trans m.primitive.bits_le

theorem Run.Open.used_le {r : Run} (hr : r.Open) : r.used ≤ 64 := by
  rw [hr.used]
  exact hr.shares.fits.trans r.first.primitive.bits_le

theorem takes?_eq {r : Run} (hr : r.Open) {m : Member} (hm : m.Sound) {w : Nat}
    (hw : m.bitWidth = some w) : r.takes? m w = some (r.accepts m w) := by
  rw [Run.takes?, Run.accepts]
  by_cases hp : r.first.primitive = m.primitive
  · rw [if_pos hp, countOn_of_le hr.used_le (hm.width_le hw), decide_eq_true hp, Bool.true_and]
    rfl
  · rw [if_neg hp, decide_eq_false hp, Bool.false_and]

/-- A step does not overflow, and packs the member as it is packed without a bound on the counter. -/
theorem exists_step {p : Packing} (hp : FindsOpen p.run) {m : Member} (hm : m.Sound) :
    ∃ q, p.step m = some q ∧ FindsOpen q.run ∧ ∀ ms, p.groupsWith (m :: ms) = q.groupsWith ms := by
  obtain ⟨closed, run⟩ := p
  cases hw : m.bitWidth with
  | none =>
    refine ⟨⟨closed ++ Run.close run ++ [.single m], none⟩, ?_, findsOpen_none, fun ms => ?_⟩
    · simp only [Packing.step, hw]
    · simp [Packing.groupsWith, groupsAfter_single hw]
  | some w =>
    have hcount : countOn 0 w = some w := by
      rw [countOn_of_le (Nat.zero_le _) (hm.width_le hw), Nat.zero_add]
    have hfirst := (open_first hm hw).findsOpen
    cases run with
    | none =>
      refine ⟨⟨closed, some ⟨m, [], w⟩⟩, ?_, hfirst, fun ms => ?_⟩
      · simp only [Packing.step, hw, hcount, Option.map_some]
      · rw [Packing.groupsWith, groupsAfter_first hw]
        rfl
    | some r =>
      have hopen := hp r rfl
      have htakes := takes?_eq hopen hm hw
      by_cases ha : r.accepts m w = true
      · have hsum := countOn_of_le hopen.used_le (hm.width_le hw)
        refine ⟨⟨closed, some (r.add m w)⟩, ?_, (open_add hopen hm hw ha).findsOpen, fun ms => ?_⟩
        · simp [Packing.step, hw, htakes, ha, hsum, Run.add]
        · rw [Packing.groupsWith, groupsAfter_next hw, if_pos ha]
          rfl
      · refine ⟨⟨closed ++ [.bits r.first r.rest], some ⟨m, [], w⟩⟩, ?_, hfirst, fun ms => ?_⟩
        · simp [Packing.step, hw, htakes, ha, hcount]
        · simp [Packing.groupsWith, groupsAfter_next hw, ha]

theorem exists_run {p : Packing} (hp : FindsOpen p.run) {ms : List Member}
    (hm : ∀ m ∈ ms, m.Sound) :
    ∃ q, ms.foldlM Packing.step p = some q ∧ q.finish = p.groupsWith ms := by
  induction ms generalizing p with
  | nil => exact ⟨p, rfl, rfl⟩
  | cons m ms ih =>
    rw [List.forall_mem_cons] at hm
    obtain ⟨q, hstep, hq, hgroups⟩ := exists_step hp hm.1
    obtain ⟨s, hrun, hfinish⟩ := ih hq hm.2
    refine ⟨s, ?_, hfinish.trans (hgroups ms).symm⟩
    rw [List.foldlM_cons, hstep]
    exact hrun

theorem countedGroups_eq {ms : List Member} (hm : ∀ m ∈ ms, m.Sound) :
    countedGroups ms = some (groups ms) := by
  let start : Packing := ⟨[], none⟩
  obtain ⟨q, hrun, hfinish⟩ := exists_run (p := start) findsOpen_none hm
  rw [countedGroups, hrun, Option.map_some, hfinish]
  rfl

/-- The groups of members are their only greedy packing, and the counter of bits does not overflow on
the way to it. -/
theorem groups_pack {ms : List Member} (hm : ∀ m ∈ ms, m.Sound) :
    GreedilyPacked ms (groups ms) ∧ (∀ gs, GreedilyPacked ms gs → gs = groups ms) ∧
      countedGroups ms = some (groups ms) :=
  ⟨greedilyPacked_groups hm, (packsOnce hm).alone, countedGroups_eq hm⟩

/-- A storage unit that is filled to the last bit, one that closes before a smaller type, and a member
between two storage units of one type. -/
theorem groups_pack_words :
    let a := writtenMember (.int false .w16) "a" (some 3) ""
    let b := writtenMember (.int false .w16) "b" (some 13) ""
    let c := writtenMember (.int false .w16) "c" (some 1) ""
    let d := writtenMember (.int false .w8) "d" (some 8) ""
    let e := writtenMember (.int false .w8) "e" none ""
    let f := writtenMember (.int false .w8) "f" (some 7) ""
    let gs := [.bits a [b], .bits c [], .bits d [], .single e, .bits f []]
    (∀ m ∈ [a, b, c, d, e, f], m.Sound) ∧ GreedilyPacked [a, b, c, d, e, f] gs ∧
      countedGroups [a, b, c, d, e, f] = some gs := by
  intro a b c d e f gs
  have hsound : ∀ m ∈ [a, b, c, d, e, f], m.Sound := by
    have hwidths : ∀ m ∈ [a, b, c, d, e, f], ∀ w ∈ m.bitWidth,
        m.primitive.isInteger = true ∧ 0 < w ∧ w ≤ m.primitive.bits := by decide
    exact fun m hm w hw => hwidths m hm w hw
  have hgs : groups [a, b, c, d, e, f] = gs := rfl
  obtain ⟨hpacked, _, hcounted⟩ := groups_pack hsound
  rw [hgs] at hpacked hcounted
  exact ⟨hsound, hpacked, hcounted⟩

end Datagram.Idl
