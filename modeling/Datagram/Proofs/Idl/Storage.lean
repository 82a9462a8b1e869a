import Datagram.Proofs.Codec.Locality
import Datagram.Proofs.Idl.Names
import Datagram.Proofs.Idl.Packing
import Mathlib.Data.List.Pairwise

/-! # Keys of storage units

A storage unit is named after all its bit fields, with an underscore between them, so it may have the
name that another member has. Fields share a value in two ways only: they have one name, or one is named
like a bit member of the other. The second needs a struct that stands in the place of the storage unit. -/

namespace Datagram

/-! ## Names of values -/

/-- The names of the values of a field: its own, and below it those of the bit members. -/
def Field.valueNames (f : Field) : List String :=
  f.name :: f.members.map fun b => f.name ++ "." ++ b.name

/-- A field in a part of a message. -/
def Part.slot (p : Part) (f : Field) : Slot := ⟨p.key f.name, f⟩

theorem keys_slot (p : Part) (f : Field) : (p.slot f).keys = f.valueNames.map p.key := by
  have hbelow : ∀ b : BitMember, (p.slot f).memberKey b = p.key (f.name ++ "." ++ b.name) := by
    intro b
    simp only [Slot.memberKey, Part.slot, Part.key, String.append_assoc]
  rw [Field.valueNames, List.map_cons, List.map_map, Slot.keys]
  exact congrArg _ (List.map_congr_left fun b _ => hbelow b)

/-- What is written for a field does not change with the values that are given for another one. -/
def Field.Ignores (f g : Field) : Prop :=
  ∀ (p : Part) (u v : Values), (∀ k, k ∉ (p.slot g).keys → u.get? k = v.get? k) →
    (p.slot f).encode u = (p.slot f).encode v

theorem ignores_of_disjoint {f g : Field} (h : f.valueNames.Disjoint g.valueNames) : f.Ignores g := by
  intro p u v huv
  apply Slot.encode_congr
  intro k hk
  apply huv
  intro hkg
  rw [keys_slot] at hk hkg
  obtain ⟨x, hx, rfl⟩ := List.mem_map.mp hk
  obtain ⟨y, hy, heq⟩ := List.mem_map.mp hkg
  exact h hx (p.key_injective heq ▸ hy)

namespace Idl

open Datagram.Text

/-- A field has the name of a bit member of another one. -/
def Shadows (f g : Datagram.Field) : Prop := ∃ b ∈ g.members, f.name = g.name ++ "." ++ b.name

theorem eq_of_append_dot {a b x y : String} (hx : Word x.toList) (hy : Word y.toList)
    (h : a ++ "." ++ x = b ++ "." ++ y) : a = b := by
  -- Read from its end the name is cut by its last dot.
  have hcut : ∀ {a x : String}, Word x.toList →
      (a ++ "." ++ x).toList.reverse.dropWhile isWordChar = '.' :: a.toList.reverse := by
    intro a x hx
    have hreverse : (a ++ "." ++ x).toList.reverse = x.toList.reverse ++ '.' :: a.toList.reverse := by
      simp
    rw [hreverse]
    apply dropWhile_exact
    · exact fun c hc => hx.chars c (List.mem_reverse.mp hc)
    · rintro _ ⟨⟩
      rfl
  have hends := hcut (a := a) hx
  rw [h, hcut hy] at hends
  exact String.toList_inj.mp (List.reverse_injective (List.cons.inj hends).2.symm)

theorem disjoint_valueNames {f g : Datagram.Field} (hname : f.name ≠ g.name) (hfg : ¬ Shadows f g)
    (hgf : ¬ Shadows g f) (hf : ∀ b ∈ f.members, Word b.name.toList)
    (hg : ∀ b ∈ g.members, Word b.name.toList) : f.valueNames.Disjoint g.valueNames := by
  intro name hnf hng
  rcases List.mem_cons.mp hnf with rfl | hnf
  · rcases List.mem_cons.mp hng with heq | hng
    · exact hname heq
    · obtain ⟨b, hb, heq⟩ := List.mem_map.mp hng
      exact hfg ⟨b, hb, heq.symm⟩
  · obtain ⟨b, hb, rfl⟩ := List.mem_map.mp hnf
    rcases List.mem_cons.mp hng with heq | hng
    · exact hgf ⟨b, hb, heq.symm⟩
    · obtain ⟨c, hc, heq⟩ := List.mem_map.mp hng
      exact hname (eq_of_append_dot (hf b hb) (hg c hc) heq.symm)

/-! ## Bit members -/

variable {structs : List Struct} {e : Endian} {m : Member} {g : Group}

theorem map_name_bitMembersFrom (start : Nat) (run : List Member) :
    (bitMembersFrom start run).map BitMember.name = run.map Member.name := by
  induction run generalizing start with
  | nil => rfl
  | cons m ms ih =>
    rw [bitMembersFrom, List.map_cons, List.map_cons, ih]
    dsimp only
    split
    · rfl
    · rfl

theorem name_mem_of_mem_storageField {pre : String} {scalar : Scalar} {run : List Member} {b : BitMember}
    (h : b ∈ (storageField e pre scalar run).members) : b.name ∈ run.map Member.name := by
  rw [← map_name_bitMembersFrom 0 run]
  unfold storageField Datagram.Field.withBits at h
  dsimp only at h
  split at h
  · exact List.mem_map_of_mem h
  · have hnone : ((Field.new (pre ++ "_".intercalate (run.map Member.name)) (.scalar scalar)).withEndian
        e).bits = none := ite_self none
    rw [Datagram.Field.members, hnone] at h
    cases h

/-- Bit members are named after members. -/
theorem word_of_mem_members (ht : ∀ s ∈ structs, ∀ m ∈ s.members, Word m.name.toList)
    (hg : ∀ m ∈ g.members, Word m.name.toList) {pre : String} {f : Datagram.Field}
    (hf : f ∈ flatten structs e pre g) : ∀ b ∈ f.members, Word b.name.toList := by
  induction structs using expansion_induction generalizing g pre with
  | step structs ih =>
    intro b hb
    match g with
    | .bits first rest =>
      rw [flatten] at hf
      split at hf
      · rw [List.mem_singleton.mp hf] at hb
        obtain ⟨m, hm, hname⟩ := List.mem_map.mp (name_mem_of_mem_storageField hb)
        exact hname ▸ hg m hm
      · cases hf
    | .single m =>
      cases hp : m.primitive.scalar? with
      | some scalar =>
        rw [flatten_of_scalar hp] at hf
        rw [Datagram.Field.members, bits_of_mem_scalarFields hf] at hb
        cases hb
      | none =>
        cases hs : findStruct? structs m.typeName with
        | none =>
          rw [flatten_of_none hp hs] at hf
          cases hf
        | some s =>
          have hwords := ht s (List.mem_of_find?_eq_some hs)
          rw [flatten_of_some hp hs] at hf
          obtain ⟨i, _, hf⟩ := List.mem_flatMap.mp hf
          obtain ⟨k, hk, hf⟩ := List.mem_flatMap.mp hf
          refine ih m.typeName s hs (fun t h => ht t (List.mem_filter.mp h).1) ?_ hf b hb
          exact fun n hn => hwords n (members_subset_of_mem_groups hk hn)

/-! ## Names below other names -/

/-- What stands below a name begins with the same word, and with a dot behind it at the latest. -/
theorem label_below (name t : String) :
    label (name ++ "." ++ t) = ((label name).1, some ((label name).2.getD '.')) := by
  have hword : ∀ c ∈ name.toList.takeWhile isWordChar, isWordChar c = true :=
    fun _ hc => List.mem_takeWhile_imp hc
  have hsplit : (name ++ "." ++ t).toList = name.toList.takeWhile isWordChar ++
      (name.toList.dropWhile isWordChar ++ '.' :: t.toList) := by
    rw [← List.append_assoc, List.takeWhile_append_dropWhile]
    simp
  have hend := List.head?_dropWhile_not isWordChar name.toList
  rw [label, label, hsplit]
  generalize name.toList.takeWhile isWordChar = w at hword
  cases hrest : name.toList.dropWhile isWordChar with
  | nil =>
    have hdot : ∀ c, ('.' :: t.toList).head? = some c → isWordChar c = false := by
      rintro _ ⟨⟩
      rfl
    rw [List.nil_append, takeWhile_exact hword hdot, dropWhile_exact hword hdot]
    rfl
  | cons c r =>
    have hc : ∀ d, (c :: r ++ '.' :: t.toList).head? = some d → isWordChar d = false := by
      rintro _ ⟨⟩
      rw [hrest] at hend
      simpa using hend
    rw [takeWhile_exact hword hc, dropWhile_exact hword hc]
    rfl

/-- No struct member that is one element has the name of a storage unit, if a field of the struct is
named like a bit field in the unit. -/
def Struct.Unshadowed (structs : List Struct) (s : Struct) : Prop :=
  ∀ first rest m t, .bits first rest ∈ groups s.members → .single m ∈ groups s.members →
    m.isStruct = true → m.count = 1 → m.name = Group.word (.bits first rest) →
    findStruct? structs m.typeName = some t → ∀ b ∈ first :: rest, b.name ∉ t.storedNames

theorem Struct.Unshadowed.mono {structs' : List Struct} {s : Struct} (h : s.Unshadowed structs)
    (hfind : ∀ name t, findStruct? structs' name = some t → findStruct? structs name = some t) :
    s.Unshadowed structs' :=
  fun first rest m t hrun hm hstruct hcount hname ht =>
    h first rest m t hrun hm hstruct hcount hname (hfind _ t ht)

/-- Structs that keep their fields apart, each with those that are expanded below it. -/
def KeptApart (structs : List Struct) : Prop :=
  ∀ t ∈ structs, t.Apart ∧ t.Unshadowed (without structs t.name)

theorem find_of_without {name other : String} {t : Struct}
    (h : findStruct? (without structs name) other = some t) : findStruct? structs other = some t := by
  by_cases hname : other = name
  · rw [hname, findStruct?_without_self] at h
    cases h
  · rwa [findStruct?_without hname] at h

theorem KeptApart.without (h : KeptApart structs) (name : String) :
    KeptApart (Datagram.Idl.without structs name) := by
  intro t ht
  obtain ⟨hapart, hunshadowed⟩ := h t (List.mem_filter.mp ht).1
  refine ⟨hapart, hunshadowed.mono fun other u hu => ?_⟩
  rw [without_comm] at hu
  exact find_of_without hu

/-- A field of a struct member is a field of the struct below the name of an element. -/
theorem exists_element (hp : m.primitive.scalar? = none) {f : Datagram.Field}
    (hf : f ∈ flatten structs e "" (.single m)) :
    ∃ t i f', findStruct? structs m.typeName = some t ∧ i < m.count ∧
      f' ∈ (groups t.members).flatMap (flatten (without structs m.typeName) e "") ∧
      f = f'.under (innerPrefix "" m i) := by
  cases hs : findStruct? structs m.typeName with
  | none =>
    rw [flatten_of_none hp hs] at hf
    cases hf
  | some t =>
    rw [flatten_elements hp hs] at hf
    obtain ⟨i, hi, hf⟩ := List.mem_flatMap.mp hf
    obtain ⟨f', hf', rfl⟩ := List.mem_map.mp hf
    exact ⟨t, i, f', rfl, List.mem_range.mp hi, hf', rfl⟩

/-- A field with bit members is a storage unit, or lies in a struct. -/
theorem unit_of_bits {f : Datagram.Field} {b : BitMember} (hf : f ∈ flatten structs e "" g)
    (hb : b ∈ f.members) : (∃ first rest, g = .bits first rest ∧ f.name = g.word ∧
      b.name ∈ (first :: rest).map Member.name) ∨
      ∃ m, g = .single m ∧ m.primitive.scalar? = none := by
  match g with
  | .bits first rest =>
    refine Or.inl ⟨first, rest, rfl, ?_, ?_⟩
    · exact List.mem_singleton.mp (groupNames_bits (List.mem_map_of_mem hf))
    · rw [flatten] at hf
      split at hf
      · rw [List.mem_singleton.mp hf] at hb
        exact name_mem_of_mem_storageField hb
      · cases hf
  | .single m =>
    refine Or.inr ⟨m, rfl, ?_⟩
    cases hp : m.primitive.scalar? with
    | none => rfl
    | some scalar =>
      rw [flatten_of_scalar hp] at hf
      rw [Datagram.Field.members, bits_of_mem_scalarFields hf] at hb
      cases hb

theorem mem_storedNames_of_word {t : Struct} (ht : t.Apart) {f : Datagram.Field}
    (hf : f ∈ (groups t.members).flatMap (flatten structs e "")) (hname : Word f.name.toList) :
    f.name ∈ t.storedNames := by
  obtain ⟨g, hg, hf⟩ := List.mem_flatMap.mp hf
  have hlabel := label_of_mem_groupNames (ht.word_group hg) (List.mem_map_of_mem hf)
  rw [label_word hname] at hlabel
  obtain ⟨hword, hmark⟩ := Prod.ext_iff.mp hlabel
  rw [String.toList_inj.mp hword]
  exact List.mem_map_of_mem (List.mem_filter.mpr ⟨hg, decide_eq_true hmark.symm⟩)

/-- A name below the name of a storage unit is one of a struct member that is one element. -/
theorem not_shadows_unit (ht : ∀ t ∈ structs, t.Apart) {s : Struct} (hs : s.Apart)
    (hu : s.Unshadowed structs) {first : Member} {rest : List Member} (hg : g ∈ groups s.members)
    (hunit : .bits first rest ∈ groups s.members) {f : Datagram.Field}
    (hf : f ∈ flatten structs e "" g)
    (hlabel : ((Group.label (.bits first rest)).1, some '.') = g.label) {bit : String}
    (hbit : bit ∈ (first :: rest).map Member.name)
    (hname : f.name = Group.word (.bits first rest) ++ "." ++ bit) : False := by
  obtain ⟨hword, hmark⟩ := Prod.ext_iff.mp hlabel
  have hword : Group.word (.bits first rest) = g.word := String.toList_inj.mp hword
  have hmark : some '.' = g.mark := hmark
  match g with
  | .bits .. => cases hmark
  | .single m =>
    rw [Group.mark] at hmark
    by_cases hstruct : m.isStruct = true
    · have hcount : ¬ 1 < m.count := by
        intro hcount
        rw [if_pos hstruct, if_pos hcount] at hmark
        exact absurd hmark (by decide)
      obtain ⟨t, i, f', hfind, hi, hf', rfl⟩ := exists_element (Member.isStruct_iff.mp hstruct) hf
      have hbelow : innerPrefix "" m i ++ f'.name = innerPrefix "" m i ++ bit := by
        have hmember : m.name = Group.word (.bits first rest) := hword.symm
        rw [← hmember] at hname
        rw [innerPrefix_of_not_count hcount] at hname ⊢
        exact hname
      obtain rfl := append_injective _ hbelow
      obtain ⟨k, hk, hkname⟩ := List.mem_map.mp hbit
      have hkword : Word f'.name.toList := hkname ▸ hs.word k (members_subset_of_mem_groups hunit hk)
      have hstored := mem_storedNames_of_word (ht t (List.mem_of_find?_eq_some hfind)) hf' hkword
      exact hu first rest m t hunit hg hstruct (by omega) hword.symm hfind k hk (hkname ▸ hstored)
    · rw [if_neg hstruct] at hmark
      cases hsize : m.arraySize with
      | none =>
        rw [hsize] at hmark
        cases hmark
      | some n =>
        rw [hsize] at hmark
        cases hmark

/-- No field of a struct has the name of a bit member of another one. -/
theorem not_shadows (ht : KeptApart structs) {s : Struct} (hs : s.Apart) (hu : s.Unshadowed structs)
    {f g : Datagram.Field} (hf : f ∈ (groups s.members).flatMap (flatten structs e ""))
    (hg : g ∈ (groups s.members).flatMap (flatten structs e "")) : ¬ Shadows f g := by
  induction structs using expansion_induction generalizing s f g with
  | step structs ih =>
    rintro ⟨b, hb, hname⟩
    obtain ⟨gf, hgf, hf⟩ := List.mem_flatMap.mp hf
    obtain ⟨gg, hgg, hg⟩ := List.mem_flatMap.mp hg
    have hlf := label_of_mem_groupNames (hs.word_group hgf) (List.mem_map_of_mem hf)
    have hlg := label_of_mem_groupNames (hs.word_group hgg) (List.mem_map_of_mem hg)
    rw [hname, label_below, hlg] at hlf
    rcases unit_of_bits hg hb with ⟨first, rest, rfl, hunit, hbit⟩ | ⟨m, rfl, hp⟩
    · exact not_shadows_unit (fun t h => (ht t h).1) hs hu hgf hgg hf hlf hbit (hunit ▸ hname)
    · -- Both lie in one member, and in one element of it.
      have hmark : some ((Group.mark (.single m)).getD '.') = Group.mark (.single m) := by
        rw [Group.mark, if_pos (Member.isStruct_iff.mpr hp)]
        split
        · rfl
        · rfl
      rw [Group.label, hmark] at hlf
      obtain rfl : Group.single m = gf := List.inj_on_of_nodup_map hs.nodup_labels hgg hgf hlf
      have hm : Word m.name.toList := hs.word_group hgg
      obtain ⟨t, i, f, hfind, hi, hinner, rfl⟩ := exists_element hp hf
      obtain ⟨t', j, g, hfind', hj, hinner', rfl⟩ := exists_element hp hg
      obtain rfl : t = t' := Option.some.inj (hfind.symm.trans hfind')
      have helement : innerPrefix "" m i ++ f.name =
          innerPrefix "" m j ++ (g.name ++ "." ++ b.name) := by
        rw [← String.append_assoc, ← String.append_assoc]
        exact hname
      have hij : i = j := by
        by_cases hcount : 1 < m.count
        · rw [innerPrefix_of_count hcount, innerPrefix_of_count hcount, String.append_assoc,
            String.append_assoc] at helement
          have hnumeral := elementNumeral_element hm i ("." ++ f.name)
          rw [helement, elementNumeral_element hm] at hnumeral
          exact (decimal_injective hnumeral).symm
        · omega
      rw [hij] at helement
      obtain ⟨hapart, hunshadowed⟩ := ht t (List.mem_of_find?_eq_some hfind)
      rw [name_of_findStruct? hfind] at hunshadowed
      exact ih m.typeName t hfind (ht.without m.typeName) hapart hunshadowed hinner hinner'
        ⟨b, hb, append_injective _ helement⟩

/-! ## Documents -/

/-- Two fields have different names, and no value that is given for one counts for the other. -/
structure Separate (f g : Datagram.Field) : Prop where
  names : f.name ≠ g.name
  values : f.valueNames.Disjoint g.valueNames
  left : f.Ignores g
  right : g.Ignores f

theorem Separate.symm {f g : Datagram.Field} (h : Separate f g) : Separate g f :=
  ⟨h.names.symm, fun _ hg hf => h.values hf hg, h.right, h.left⟩

theorem separate_of_disjoint {f g : Datagram.Field} (h : f.valueNames.Disjoint g.valueNames) :
    Separate f g where
  names heq := h List.mem_cons_self (heq ▸ List.mem_cons_self)
  values := h
  left := ignores_of_disjoint h
  right := ignores_of_disjoint fun _ hg hf => h hf hg

/-- Each storage unit among the fields of a struct is separate from all other fields. -/
def Document.StorageApart (d : Document) (s : Struct) : Prop :=
  (d.structFields s).Pairwise fun f g => f.bits.isSome ∨ g.bits.isSome → Separate f g

/-- The storage units of a struct and its numbers outside them, but for arrays, have different names, and
no struct member that is one element has the name of a storage unit and a field of the name of one of its
bit fields. -/
structure Document.RunsApart (d : Document) (s : Struct) : Prop where
  stored : s.storedNames.Nodup
  unshadowed : s.Unshadowed (without d.structs s.name)

variable {options : Options} {text : String} {d : Document} {s : Struct}

theorem storageApart_of_runsApart (h : Document.parse options text = .ok d)
    (hdistinct : ∀ s ∈ d.structs, (s.members.map Member.name).Nodup)
    (hruns : ∀ s ∈ d.structs, d.RunsApart s) (hs : s ∈ d.structs) : d.StorageApart s := by
  have hkept : KeptApart d.structs := fun t ht =>
    ⟨⟨word_of_parse h ht, hdistinct t ht, (hruns t ht).stored⟩, (hruns t ht).unshadowed⟩
  have hnames := nodup_structFields (fun t ht => (hkept t ht).1) hs
  rw [List.Nodup, List.pairwise_map] at hnames
  have hbelow := hkept.without s.name
  have hbits : ∀ f ∈ d.structFields s, ∀ b ∈ f.members, Word b.name.toList := by
    intro f hf
    obtain ⟨g, hg, hf⟩ := List.mem_flatMap.mp hf
    refine word_of_mem_members (fun t ht => (hbelow t ht).1.word) ?_ hf
    exact fun m hm => word_of_parse h hs m (members_subset_of_mem_groups hg hm)
  obtain ⟨hapart, hunshadowed⟩ := hkept s hs
  refine hnames.imp_of_mem fun hf hg hname _ => separate_of_disjoint ?_
  exact disjoint_valueNames hname (not_shadows hbelow hapart hunshadowed hf hg)
    (not_shadows hbelow hapart hunshadowed hg hf) (hbits _ hf) (hbits _ hg)

/-- A group without a mark has one field, with the name of the group. -/
theorem exists_storedField (h : Document.parse options text = .ok d) (hs : s ∈ d.structs)
    (hg : g ∈ groups s.members) (hmark : g.mark = none) (structs : List Struct) (e : Endian) :
    ∃ f, flatten structs e "" g = [f] ∧ f.name = g.word := by
  match g with
  | .bits first rest =>
    obtain ⟨f, hf, -⟩ := run_packs h hs hg structs e ""
    have hname : f.name ∈ groupNames structs e (.bits first rest) :=
      List.mem_map_of_mem (hf ▸ List.mem_singleton.mpr rfl)
    exact ⟨f, hf, List.mem_singleton.mp (groupNames_bits hname)⟩
  | .single m =>
    cases hp : m.primitive.scalar? with
    | none =>
      rw [Group.mark, if_pos (Member.isStruct_iff.mpr hp)] at hmark
      split at hmark
      · cases hmark
      · cases hmark
    | some scalar =>
      rw [Group.mark, if_neg (by rw [isStruct_of_scalar hp]; exact Bool.false_ne_true),
        Option.map_eq_none_iff] at hmark
      rw [flatten_of_scalar hp, scalarFields, hmark]
      exact ⟨_, rfl, String.empty_append⟩

theorem bits_of_mem_unit (h : Document.parse options text = .ok d) (hs : s ∈ d.structs)
    {first : Member} {rest : List Member} (hg : .bits first rest ∈ groups s.members)
    {f : Datagram.Field} (hf : f ∈ flatten structs e "" (.bits first rest)) :
    f.bits.isSome ∧ f.members.map BitMember.name = (first :: rest).map Member.name := by
  obtain ⟨unit, hunit, _, hstacked, _⟩ := run_packs h hs hg structs e ""
  rw [hunit] at hf
  obtain rfl := List.mem_singleton.mp hf
  have hnames := hstacked.names
  refine ⟨?_, hnames⟩
  cases hbits : f.bits with
  | none =>
    rw [Datagram.Field.members, hbits] at hnames
    cases hnames
  | some bits => rfl

theorem stored_of_storageApart (h : Document.parse options text = .ok d)
    (hdistinct : (s.members.map Member.name).Nodup) (hs : s ∈ d.structs)
    (hstorage : d.StorageApart s) : s.storedNames.Nodup := by
  have hgroups := (List.pairwise_flatMap.mp hstorage).2
  rw [Struct.storedNames, List.Nodup, List.pairwise_map, List.pairwise_filter]
  refine (hgroups.and (pairwise_single_names hdistinct)).imp_of_mem ?_
  rintro g g' hg hg' ⟨hfields, hnames⟩ hmark hmark' hword
  obtain ⟨f, hf, hname⟩ := exists_storedField h hs hg (of_decide_eq_true hmark)
    (without d.structs s.name) d.directives.endian
  obtain ⟨f', hf', hname'⟩ := exists_storedField h hs hg' (of_decide_eq_true hmark')
    (without d.structs s.name) d.directives.endian
  have hmem : f ∈ flatten (without d.structs s.name) d.directives.endian "" g :=
    hf ▸ List.mem_singleton.mpr rfl
  have hmem' : f' ∈ flatten (without d.structs s.name) d.directives.endian "" g' :=
    hf' ▸ List.mem_singleton.mpr rfl
  -- Members outside storage units have different names, so one of the two is a storage unit.
  have hbits : f.bits.isSome ∨ f'.bits.isSome := by
    cases g with
    | bits first rest => exact Or.inl (bits_of_mem_unit h hs hg hmem).1
    | single m =>
      cases g' with
      | bits first rest => exact Or.inr (bits_of_mem_unit h hs hg' hmem').1
      | single k => exact absurd hword (hnames m k rfl rfl)
  exact (hfields f hmem f' hmem' hbits).names (by rw [hname, hname', hword])

theorem unshadowed_of_storageApart (h : Document.parse options text = .ok d) (hs : s ∈ d.structs)
    (hstorage : d.StorageApart s) : s.Unshadowed (without d.structs s.name) := by
  intro first rest m t hunit hm hstruct hcount hname hfind b hb hstored
  have ht : t ∈ d.structs := (List.mem_filter.mp (List.mem_of_find?_eq_some hfind)).1
  obtain ⟨unit, hflat, hunitname⟩ := exists_storedField h hs hunit rfl (without d.structs s.name)
    d.directives.endian
  have hmem : unit ∈ flatten (without d.structs s.name) d.directives.endian "" (.bits first rest) :=
    hflat ▸ List.mem_singleton.mpr rfl
  obtain ⟨hbits, hbitnames⟩ := bits_of_mem_unit h hs hunit hmem
  obtain ⟨bit, hbit, hbitname⟩ : ∃ bit ∈ unit.members, bit.name = b.name :=
    List.mem_map.mp (hbitnames ▸ List.mem_map_of_mem hb)
  -- The field of the inner struct that has the name of the bit field.
  obtain ⟨k, hk, hkname⟩ := List.mem_map.mp hstored
  obtain ⟨hk, hmark⟩ := List.mem_filter.mp hk
  obtain ⟨inner, hinner, hinnername⟩ := exists_storedField h ht hk (of_decide_eq_true hmark)
    (without (without d.structs s.name) m.typeName) d.directives.endian
  have hbelow : inner.under (innerPrefix "" m 0) ∈
      flatten (without d.structs s.name) d.directives.endian "" (.single m) := by
    rw [flatten_elements (Member.isStruct_iff.mp hstruct) hfind, hcount]
    refine List.mem_flatMap.mpr ⟨0, by decide, List.mem_map_of_mem ?_⟩
    exact List.mem_flatMap.mpr ⟨k, hk, hinner ▸ List.mem_singleton.mpr rfl⟩
  have hshared : (inner.under (innerPrefix "" m 0)).name = unit.name ++ "." ++ bit.name := by
    show innerPrefix "" m 0 ++ inner.name = _
    rw [innerPrefix_of_not_count (by omega), hinnername, hkname, hbitname, hunitname, hname]
  have hne : unit ≠ inner.under (innerPrefix "" m 0) := by
    intro heq
    have hlength := congrArg String.length (heq ▸ hshared)
    simp only [String.length_append] at hlength
    have hdot : ".".length = 1 := rfl
    omega
  have hsymm : Std.Symm fun f g : Datagram.Field => f.bits.isSome ∨ g.bits.isSome → Separate f g :=
    ⟨fun _ _ h hb => (h hb.symm).symm⟩
  have hseparate := List.Pairwise.forall hstorage (List.mem_flatMap.mpr ⟨_, hunit, hmem⟩)
    (List.mem_flatMap.mpr ⟨_, hm, hbelow⟩) hne (Or.inl hbits)
  refine hseparate.values (List.mem_cons_of_mem _ (List.mem_map_of_mem hbit)) ?_
  exact hshared ▸ List.mem_cons_self

theorem runsApart_of_storageApart (h : Document.parse options text = .ok d)
    (hdistinct : (s.members.map Member.name).Nodup) (hs : s ∈ d.structs)
    (hstorage : d.StorageApart s) : d.RunsApart s :=
  ⟨stored_of_storageApart h hdistinct hs hstorage, unshadowed_of_storageApart h hs hstorage⟩

/-- The storage units of all structs are separate from all other fields just if their names are different
and no struct stands in the place of a storage unit. -/
theorem storageApart_iff (h : Document.parse options text = .ok d)
    (hdistinct : ∀ s ∈ d.structs, (s.members.map Member.name).Nodup) :
    (∀ s ∈ d.structs, d.StorageApart s) ↔ ∀ s ∈ d.structs, d.RunsApart s :=
  ⟨fun hstorage s hs => runsApart_of_storageApart h (hdistinct s hs) hs (hstorage s hs),
    fun hruns _ hs => storageApart_of_runsApart h hdistinct hruns hs⟩

/-- A struct in the place of a storage unit, whose fields have other names than the bit fields. -/
theorem storageApart_iff_below :
    let text := "struct In \x7b unsigned char x : 2; int v; \x7d\nstruct S \x7b unsigned char a : 1; unsigned char b : 1; In a_b; int a_b_v[2]; \x7d"
    let x : Member := ⟨"x", "unsigned char", .int false .w8, none, some 2, false, ""⟩
    let v : Member := ⟨"v", "int", .int true .w32, none, none, false, ""⟩
    let a : Member := ⟨"a", "unsigned char", .int false .w8, none, some 1, false, ""⟩
    let b : Member := ⟨"b", "unsigned char", .int false .w8, none, some 1, false, ""⟩
    let n : Member := ⟨"a_b", "In", .struct, none, none, false, ""⟩
    let w : Member := ⟨"a_b_v", "int", .int true .w32, some 2, none, false, ""⟩
    let d : Document := ⟨{}, [⟨"In", .user, [x, v], ""⟩, ⟨"S", .user, [a, b, n, w], ""⟩]⟩
    Document.parse {} text = .ok d ∧
      (∀ s ∈ d.structs, (s.members.map Member.name).Nodup) ∧
      (∀ s ∈ d.structs, d.RunsApart s) ∧ ∀ s ∈ d.structs, d.StorageApart s := by
  intro text x v a b n w d
  have hblank : text.toList.all isBlank = false := by decide +kernel
  have hdocument : documentOf {} text = d := by decide +kernel
  have hparse : Document.parse {} text = .ok d :=
    (parse_eq_documentOf {} hblank).trans (congrArg Except.ok hdocument)
  have hdistinct : ∀ s ∈ d.structs, (s.members.map Member.name).Nodup := by decide
  have hinner : groups [x, v] = [.bits x [], .single v] := by decide
  have houter : groups [a, b, n, w] = [.bits a [b], .single n, .single w] := by decide
  have hruns : ∀ s ∈ d.structs, d.RunsApart s := by
    intro s hs
    simp only [d, List.mem_cons, List.not_mem_nil, or_false] at hs
    rcases hs with rfl | rfl
    · refine ⟨by decide, ?_⟩
      intro first rest m t _ hm hstruct
      rw [hinner] at hm
      simp only [List.mem_cons, List.not_mem_nil, or_false, reduceCtorEq, false_or,
        Group.single.injEq] at hm
      rw [hm] at hstruct
      cases hstruct
    · refine ⟨by decide, ?_⟩
      intro first rest m t hunit hm hstruct _ _ hfind k hk hstored
      rw [houter] at hunit hm
      simp only [List.mem_cons, List.not_mem_nil, or_false, reduceCtorEq, false_or,
        Group.single.injEq] at hunit hm
      obtain ⟨rfl, rfl⟩ := Group.bits.inj hunit
      rcases hm with rfl | rfl
      · obtain rfl : Struct.mk "In" .user [x, v] "" = t := Option.some.inj hfind
        have hnames : ∀ k ∈ [a, b], k.name ∉ Struct.storedNames ⟨"In", .user, [x, v], ""⟩ := by decide
        exact hnames k hk hstored
      · cases hstruct
  exact ⟨hparse, hdistinct, hruns, (storageApart_iff hparse hdistinct).mpr hruns⟩

/-- A plain field behind a storage unit has its name, and one value is written into both. -/
theorem storage_shares_value :
    let text := "struct S \x7b unsigned char a : 1; unsigned char b : 1; int a_b; \x7d"
    ∃ (d : Document) (s : Struct) (unit plain : Datagram.Field), Document.parse {} text = .ok d ∧
      (∀ t ∈ d.structs, (t.members.map Member.name).Nodup) ∧ s ∈ d.userStructs ∧
      d.structFields s = [unit, plain] ∧ unit.bits.isSome ∧ plain.name = unit.name ∧
      (⟨[], d.structFields s⟩ : Layout).encode ∅ = [0, 0, 0, 0, 0] ∧
      (⟨[], d.structFields s⟩ : Layout).encode (Dict.empty.insert "payload.a_b" "1") =
        [1, 0, 0, 0, 1] := by
  intro text
  let a : Member := ⟨"a", "unsigned char", .int false .w8, none, some 1, false, ""⟩
  let b : Member := ⟨"b", "unsigned char", .int false .w8, none, some 1, false, ""⟩
  let n : Member := ⟨"a_b", "int", .int true .w32, none, none, false, ""⟩
  let s : Struct := ⟨"S", .user, [a, b, n], ""⟩
  let d : Document := ⟨{}, [s]⟩
  let unit := storageField .big "" (.int false .w8) [a, b]
  let plain : Datagram.Field := { name := "a_b", type := .scalar (.int true .w32) }
  have hblank : text.toList.all isBlank = false := by decide +kernel
  have hdocument : documentOf {} text = d := by decide +kernel
  have hparse : Document.parse {} text = .ok d :=
    (parse_eq_documentOf {} hblank).trans (congrArg Except.ok hdocument)
  have hgroups : groups s.members = [.bits a [b], .single n] := by decide
  have hfields : d.structFields s = [unit, plain] := by
    have hscalar : n.primitive.scalar? = some (.int true .w32) := rfl
    rw [Document.structFields, hgroups, List.flatMap_cons, List.flatMap_singleton, flatten,
      flatten_of_scalar hscalar]
    decide +kernel
  refine ⟨d, s, unit, plain, hparse, by decide, by decide, hfields, rfl, by decide +kernel, ?_⟩
  rw [hfields]
  decide +kernel

end Idl

end Datagram
