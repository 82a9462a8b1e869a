import Datagram.Proofs.Codec.RoundTrip
import Datagram.Proofs.Idl.Grammar
import Datagram.Proofs.Idl.Nested
import Datagram.Proofs.Idl.Provenance
import Datagram.Proofs.Idl.WellFormed

/-! # Names of flattened members

The name of a field is written from the names and element numbers on the way to it. A member's name is a
word, so it ends before the bracket or dot behind it, and a number ends before its bracket. So the way is
read back from the name, and fields of different ways have different names. -/

namespace Datagram

namespace Idl

open Datagram.Text

/-! ## Reading a name -/

/-- The word that a name begins with, and the character behind it. -/
def label (name : String) : List Char × Option Char :=
  (name.toList.takeWhile isWordChar, (name.toList.dropWhile isWordChar).head?)

/-- The numeral in the bracket behind the first word. -/
def elementNumeral (name : String) : List Char :=
  ((name.toList.dropWhile isWordChar).drop 1).takeWhile Char.isDigit

variable {name : String}

theorem label_append (h : Word name.toList) {t : String}
    (ht : ∀ c, t.toList.head? = some c → isWordChar c = false) :
    label (name ++ t) = (name.toList, t.toList.head?) := by
  rw [label, String.toList_append, takeWhile_exact h.chars ht, dropWhile_exact h.chars ht]

theorem label_word (h : Word name.toList) : label name = (name.toList, none) := by
  have hnone := label_append h (t := "") (by rintro _ ⟨⟩)
  rwa [String.append_empty] at hnone

theorem label_dot (h : Word name.toList) (t : String) :
    label (name ++ "." ++ t) = (name.toList, some '.') := by
  have hhead : ("." ++ t).toList.head? = some '.' := by
    rw [String.toList_append]
    rfl
  rw [String.append_assoc, label_append h, hhead]
  rw [hhead]
  rintro _ ⟨⟩
  rfl

theorem elementName_append (name : String) (i : Nat) (t : String) :
    elementName name i ++ t = name ++ ("[" ++ (String.ofList (decimal i) ++ ("]" ++ t))) := by
  simp only [elementName, String.append_assoc]

theorem label_element (h : Word name.toList) (i : Nat) (t : String) :
    label (elementName name i ++ t) = (name.toList, some '[') := by
  have hhead : ("[" ++ (String.ofList (decimal i) ++ ("]" ++ t))).toList.head? = some '[' := by
    rw [String.toList_append]
    rfl
  rw [elementName_append, label_append h, hhead]
  rw [hhead]
  rintro _ ⟨⟩
  rfl

theorem elementNumeral_element (h : Word name.toList) (i : Nat) (t : String) :
    elementNumeral (elementName name i ++ t) = decimal i := by
  have hrest : ("[" ++ (String.ofList (decimal i) ++ ("]" ++ t))).toList =
      '[' :: (decimal i ++ ']' :: t.toList) := by
    simp
  have hdrop : (name.toList ++ '[' :: (decimal i ++ ']' :: t.toList)).dropWhile isWordChar =
      '[' :: (decimal i ++ ']' :: t.toList) := by
    apply dropWhile_exact h.chars
    rintro _ ⟨⟩
    rfl
  rw [elementNumeral, elementName_append, String.toList_append, hrest, hdrop, List.drop_one,
    List.tail_cons]
  apply takeWhile_exact fun _ hc => isDigit_of_mem_decimal hc
  rintro _ ⟨⟩
  rfl

theorem decimal_injective : Function.Injective decimal := by
  intro i j h
  have hi := ofDigits?_decimal i
  rw [h, ofDigits?_decimal j] at hi
  exact (Option.some.inj hi).symm

theorem elementName_injective (h : Word name.toList) : Function.Injective (elementName name) := by
  intro i j hij
  have hi := elementNumeral_element h i ""
  rw [hij, elementNumeral_element h j ""] at hi
  exact (decimal_injective hi).symm

theorem append_injective (pre : String) : Function.Injective (pre ++ ·) := by
  intro a b h
  exact String.append_right_inj pre |>.mp h

/-! ## Names of a group -/

/-- What the names of a group's fields begin with. -/
def Group.word : Group → String
  | .single m => m.name
  | .bits first rest => "_".intercalate ((first :: rest).map Member.name)

/-- What stands behind the word of a group in the names of its fields. -/
def Group.mark : Group → Option Char
  | .bits .. => none
  | .single m =>
    if m.isStruct then if 1 < m.count then some '[' else some '.'
    else m.arraySize.map fun _ => '['

def Group.label (g : Group) : List Char × Option Char := (g.word.toList, g.mark)

/-- The names of the fields of a group that stands on its own. -/
def groupNames (structs : List Struct) (e : Endian) (g : Group) : List String :=
  (flatten structs e "" g).map Datagram.Field.name

variable {structs : List Struct} {e : Endian} {m : Member} {g : Group}

theorem groupNames_of_scalar {scalar : Scalar} (hp : m.primitive.scalar? = some scalar) :
    groupNames structs e (.single m) =
      m.arraySize.elim [m.name] fun n => (List.range n).map (elementName m.name) := by
  rw [groupNames, flatten_of_scalar hp]
  unfold scalarFields
  cases m.arraySize with
  | none =>
    show ["" ++ m.name] = [m.name]
    rw [String.empty_append]
  | some n =>
    dsimp only [Option.elim_some]
    rw [List.map_map]
    refine List.map_congr_left fun i _ => ?_
    rw [Function.comp_apply, String.empty_append]
    split
    · rfl
    · rfl

theorem groupNames_of_none (hp : m.primitive.scalar? = none)
    (h : findStruct? structs m.typeName = none) : groupNames structs e (.single m) = [] := by
  rw [groupNames, flatten_of_none hp h]
  rfl

/-- Each element of a struct member has the struct's fields with its own name in front. -/
theorem flatten_elements (hp : m.primitive.scalar? = none) {s : Struct}
    (h : findStruct? structs m.typeName = some s) :
    flatten structs e "" (.single m) = (List.range m.count).flatMap fun i =>
      ((groups s.members).flatMap (flatten (without structs m.typeName) e "")).map
        (Field.under (innerPrefix "" m i)) := by
  rw [flatten_of_some hp h]
  refine List.flatMap_congr fun i _ => ?_
  rw [List.map_flatMap]
  refine List.flatMap_congr fun g _ => ?_
  rw [← flatten_append, String.append_empty]

theorem groupNames_of_some (hp : m.primitive.scalar? = none) {s : Struct}
    (h : findStruct? structs m.typeName = some s) :
    groupNames structs e (.single m) = (List.range m.count).flatMap fun i =>
      ((groups s.members).flatMap (groupNames (without structs m.typeName) e)).map
        (innerPrefix "" m i ++ ·) := by
  rw [groupNames, flatten_elements hp h, List.map_flatMap]
  refine List.flatMap_congr fun i _ => ?_
  have hnames : (groups s.members).flatMap (groupNames (without structs m.typeName) e) =
      ((groups s.members).flatMap (flatten (without structs m.typeName) e "")).map
        Datagram.Field.name := List.map_flatMap.symm
  rw [hnames, List.map_map, List.map_map]
  rfl

theorem groupNames_bits {first : Member} {rest : List Member} :
    groupNames structs e (.bits first rest) ⊆ [Group.word (.bits first rest)] := by
  rw [groupNames, flatten]
  cases first.primitive.scalar? with
  | none => exact List.nil_subset _
  | some scalar =>
    have hname : ∀ bits (f : Datagram.Field), (f.withBits bits).name = f.name := by
      intro bits f
      unfold Datagram.Field.withBits
      split
      · rfl
      · rfl
    dsimp only
    rw [List.map_singleton, storageField, hname]
    show ["" ++ Group.word (.bits first rest)] ⊆ _
    rw [String.empty_append]
    exact List.Subset.refl _

theorem innerPrefix_of_count (h : 1 < m.count) (i : Nat) :
    innerPrefix "" m i = elementName m.name i ++ "." := by
  rw [innerPrefix, if_pos h, String.empty_append]

theorem innerPrefix_of_not_count (h : ¬ 1 < m.count) (i : Nat) :
    innerPrefix "" m i = m.name ++ "." := by
  rw [innerPrefix, if_neg h, String.empty_append]

theorem isStruct_of_scalar {scalar : Scalar} (hp : m.primitive.scalar? = some scalar) :
    m.isStruct = false := by
  rw [Bool.eq_false_iff]
  intro hm
  rw [Member.isStruct_iff.mp hm] at hp
  cases hp

/-- The names of an element of a struct member begin with the word and the mark of the member. -/
theorem label_innerPrefix (hm : Word m.name.toList) (hp : m.primitive.scalar? = none) (i : Nat)
    (t : String) : label (innerPrefix "" m i ++ t) = Group.label (.single m) := by
  rw [Group.label, Group.mark, if_pos (Member.isStruct_iff.mpr hp)]
  by_cases hcount : 1 < m.count
  · rw [innerPrefix_of_count hcount, String.append_assoc, label_element hm, if_pos hcount]
    rfl
  · rw [innerPrefix_of_not_count hcount, label_dot hm, if_neg hcount]
    rfl

/-- The names of a group's fields begin with the word and the mark of the group. -/
theorem label_of_mem_groupNames (hg : Word g.word.toList) (h : name ∈ groupNames structs e g) :
    label name = g.label := by
  cases g with
  | bits first rest => rw [List.mem_singleton.mp (groupNames_bits h), label_word hg]; rfl
  | single m =>
    have hm : Word m.name.toList := hg
    cases hp : m.primitive.scalar? with
    | some scalar =>
      rw [groupNames_of_scalar hp] at h
      rw [Group.label, Group.mark, if_neg (by rw [isStruct_of_scalar hp]; exact Bool.false_ne_true)]
      cases hsize : m.arraySize with
      | none =>
        rw [hsize] at h
        rw [List.mem_singleton.mp h, label_word hm]
        rfl
      | some n =>
        rw [hsize] at h
        obtain ⟨i, _, rfl⟩ := List.mem_map.mp h
        have hlabel := label_element hm i ""
        rwa [String.append_empty] at hlabel
    | none =>
      cases hs : findStruct? structs m.typeName with
      | none =>
        rw [groupNames_of_none hp hs] at h
        cases h
      | some s =>
        rw [groupNames_of_some hp hs] at h
        obtain ⟨i, _, h⟩ := List.mem_flatMap.mp h
        obtain ⟨inner, _, rfl⟩ := List.mem_map.mp h
        exact label_innerPrefix hm hp i inner

/-! ## Names of a struct -/

/-- Parts of a list whose elements tell the part that they are in have no element in common. -/
theorem nodup_flatMap_of_part {α β γ : Type} {f : α → List β} (label : α → γ) (part : β → γ)
    {xs : List α} (hlabels : (xs.map label).Nodup) (hpart : ∀ a ∈ xs, ∀ b ∈ f a, part b = label a)
    (hf : ∀ a ∈ xs, (f a).Nodup) : (xs.flatMap f).Nodup := by
  rw [List.nodup_flatMap]
  refine ⟨hf, ?_⟩
  rw [List.Nodup, List.pairwise_map] at hlabels
  refine hlabels.imp_of_mem fun ha hb hne b hba hbb => ?_
  exact hne ((hpart _ ha b hba).symm.trans (hpart _ hb b hbb))

/-- The names of a struct that have nothing behind their word: those of its storage units, and of its
numbers outside them that are no arrays. -/
def Struct.storedNames (s : Struct) : List String :=
  ((groups s.members).filter (·.mark = none)).map Group.word

/-- A struct whose members have different words as names, and so have its storage units. -/
structure Struct.Apart (s : Struct) : Prop where
  word : ∀ m ∈ s.members, Word m.name.toList
  distinct : (s.members.map Member.name).Nodup
  stored : s.storedNames.Nodup

theorem word_intercalate {ws : List (List Char)} (hne : ws ≠ []) (h : ∀ w ∈ ws, Word w) :
    Word (List.intercalate ['_'] ws) := by
  induction ws with
  | nil => exact absurd rfl hne
  | cons w ws ih =>
    have hw := h w List.mem_cons_self
    cases ws with
    | nil => rwa [List.intercalate_singleton]
    | cons v ws =>
      rw [List.intercalate_cons_cons]
      exact (hw.append word_underscore).append
        (ih (List.cons_ne_nil v ws) fun u hu => h u (List.mem_cons_of_mem w hu))

variable {s : Struct}

theorem members_subset_of_mem_groups (hg : g ∈ groups s.members) : g.members ⊆ s.members := by
  have hall : (groups s.members).flatMap Group.members = s.members :=
    flatMap_members_groupsAfter none s.members
  intro m hm
  rw [← hall]
  exact List.mem_flatMap.mpr ⟨g, hg, hm⟩

theorem Struct.Apart.word_group (hs : s.Apart) (hg : g ∈ groups s.members) : Word g.word.toList := by
  have hmembers : ∀ m ∈ g.members, Word m.name.toList := fun m hm =>
    hs.word m (members_subset_of_mem_groups hg hm)
  cases g with
  | single m => exact hmembers m (List.mem_singleton.mpr rfl)
  | bits first rest =>
    rw [Group.word, String.toList_intercalate]
    refine word_intercalate (by simp) ?_
    rw [List.map_map, List.forall_mem_map]
    exact hmembers

theorem pairwise_single_names (h : (s.members.map Member.name).Nodup) :
    (groups s.members).Pairwise fun g g' => ∀ m k, g = .single m → g' = .single k → m.name ≠ k.name := by
  have hall : (groups s.members).flatMap Group.members = s.members :=
    flatMap_members_groupsAfter none s.members
  rw [← hall, List.map_flatMap, List.nodup_flatMap] at h
  refine h.2.imp ?_
  rintro _ _ hnames m k rfl rfl heq
  exact hnames (List.mem_singleton.mpr rfl) (List.mem_singleton.mpr heq)

theorem Struct.Apart.nodup_labels (hs : s.Apart) : ((groups s.members).map Group.label).Nodup := by
  have hstored := hs.stored
  rw [Struct.storedNames, List.Nodup, List.pairwise_map, List.pairwise_filter] at hstored
  rw [List.Nodup, List.pairwise_map]
  refine (hstored.and (pairwise_single_names hs.distinct)).imp ?_
  rintro g g' ⟨hword, hnames⟩ hlabel
  obtain ⟨hwords, hmarks⟩ := Prod.ext_iff.mp hlabel
  have hwords : g.word = g'.word := String.toList_inj.mp hwords
  have hmarks : g.mark = g'.mark := hmarks
  -- Groups with a mark are members that stand alone.
  match g, g' with
  | .single m, .single k => exact hnames m k rfl rfl hwords
  | .bits .., g' => exact hword rfl (decide_eq_true hmarks.symm) hwords
  | .single m, .bits .. => exact hword (decide_eq_true hmarks) rfl hwords

theorem Struct.Apart.nodup (hs : s.Apart)
    (h : ∀ g ∈ groups s.members, (groupNames structs e g).Nodup) :
    ((groups s.members).flatMap (groupNames structs e)).Nodup := by
  apply nodup_flatMap_of_part Group.label label hs.nodup_labels
  · exact fun g hg name hname => label_of_mem_groupNames (hs.word_group hg) hname
  · exact h

/-- The fields of a group have different names. The fields of one element differ by what is behind its
name, and those of two elements by their numbers. -/
theorem nodup_groupNames (ht : ∀ s ∈ structs, s.Apart) (hg : Word g.word.toList) :
    (groupNames structs e g).Nodup := by
  induction structs using expansion_induction generalizing g with
  | step structs ih =>
    match g with
    | .bits first rest =>
      have hone : groupNames structs e (.bits first rest) = [] ∨
          ∃ name, groupNames structs e (.bits first rest) = [name] := by
        rw [groupNames, flatten]
        cases first.primitive.scalar? with
        | none => exact Or.inl rfl
        | some scalar => exact Or.inr ⟨_, rfl⟩
      rcases hone with hnone | ⟨name, hname⟩
      · rw [hnone]
        exact List.nodup_nil
      · rw [hname]
        exact List.nodup_singleton name
    | .single m =>
      have hm : Word m.name.toList := hg
      cases hp : m.primitive.scalar? with
      | some scalar =>
        rw [groupNames_of_scalar hp]
        cases m.arraySize with
        | none => exact List.nodup_singleton _
        | some n => exact List.nodup_range.map (elementName_injective hm)
      | none =>
        cases hs : findStruct? structs m.typeName with
        | none =>
          rw [groupNames_of_none hp hs]
          exact List.nodup_nil
        | some s =>
          have hapart := ht s (List.mem_of_find?_eq_some hs)
          have hinner : ((groups s.members).flatMap
              (groupNames (without structs m.typeName) e)).Nodup := by
            apply hapart.nodup
            intro k hk
            exact ih m.typeName s hs (fun t h => ht t (List.mem_filter.mp h).1) (hapart.word_group hk)
          have helement : ∀ i, (((groups s.members).flatMap
              (groupNames (without structs m.typeName) e)).map (innerPrefix "" m i ++ ·)).Nodup :=
            fun i => hinner.map (append_injective _)
          rw [groupNames_of_some hp hs]
          by_cases hcount : 1 < m.count
          · apply nodup_flatMap_of_part decimal elementNumeral
            · exact List.nodup_range.map decimal_injective
            · intro i _ name hname
              obtain ⟨inner, _, rfl⟩ := List.mem_map.mp hname
              rw [innerPrefix_of_count hcount, String.append_assoc, elementNumeral_element hm]
            · exact fun i _ => helement i
          · obtain hnone | hone : m.count = 0 ∨ m.count = 1 := by omega
            · rw [hnone]
              exact List.nodup_nil
            · rw [hone, List.range_one, List.flatMap_singleton]
              exact helement 0

/-! ## Structs without bit fields -/

/-- A struct without bit fields, whose members have different words as names. -/
structure Struct.Tidy (s : Struct) : Prop where
  word : ∀ m ∈ s.members, Word m.name.toList
  plain : ∀ m ∈ s.members, m.bitWidth = none
  distinct : (s.members.map Member.name).Nodup

theorem groups_of_plain {ms : List Member} (h : ∀ m ∈ ms, m.bitWidth = none) :
    groups ms = ms.map .single := by
  have hall := groups_plain h []
  rwa [List.append_nil, show groups [] = [] from rfl, List.append_nil] at hall

theorem Struct.Tidy.apart (hs : s.Tidy) : s.Apart where
  word := hs.word
  distinct := hs.distinct
  stored := by
    have hwords : (groups s.members).map Group.word = s.members.map Member.name := by
      rw [groups_of_plain hs.plain, List.map_map]
      rfl
    have hall : ((groups s.members).map Group.word).Nodup := hwords ▸ hs.distinct
    exact hall.sublist (List.filter_sublist.map _)

theorem bits_of_mem_scalarFields {pre : String} {scalar : Scalar} {f : Datagram.Field}
    (h : f ∈ scalarFields e pre scalar m) : f.bits = none := by
  have hnew : ∀ name, ((Field.new name (.scalar scalar)).withEndian e).bits = none :=
    fun _ => ite_self none
  unfold scalarFields at h
  dsimp only at h
  split at h
  · rw [List.mem_singleton.mp h]
    exact hnew _
  · obtain ⟨i, _, rfl⟩ := List.mem_map.mp h
    split
    · exact hnew _
    · exact hnew _

/-- Without bit fields no field has bit members. -/
theorem bits_of_mem_flatten (ht : ∀ s ∈ structs, s.Tidy) {pre : String} {f : Datagram.Field}
    (h : f ∈ flatten structs e pre (.single m)) : f.bits = none := by
  induction structs using expansion_induction generalizing m pre with
  | step structs ih =>
    cases hp : m.primitive.scalar? with
    | some scalar =>
      rw [flatten_of_scalar hp] at h
      exact bits_of_mem_scalarFields h
    | none =>
      cases hs : findStruct? structs m.typeName with
      | none =>
        rw [flatten_of_none hp hs] at h
        cases h
      | some s =>
        have htidy := ht s (List.mem_of_find?_eq_some hs)
        rw [flatten_of_some hp hs] at h
        obtain ⟨i, _, h⟩ := List.mem_flatMap.mp h
        rw [groups_of_plain htidy.plain, List.flatMap_map] at h
        obtain ⟨k, _, h⟩ := List.mem_flatMap.mp h
        exact ih m.typeName s hs (fun t hmem => ht t (List.mem_filter.mp hmem).1) h

theorem bits_of_mem_groups (ht : ∀ s ∈ structs, s.Tidy) {s : Struct} (hs : s.Tidy) {gs : List Group}
    (hgs : gs ⊆ groups s.members) {f : Datagram.Field} (h : f ∈ gs.flatMap (flatten structs e "")) :
    f.bits = none := by
  obtain ⟨g, hg, h⟩ := List.mem_flatMap.mp h
  have hmem := hgs hg
  rw [groups_of_plain hs.plain] at hmem
  obtain ⟨k, _, rfl⟩ := List.mem_map.mp hmem
  exact bits_of_mem_flatten ht h

end Idl

/-! ## Keys -/

theorem Part.key_injective (p : Part) : Function.Injective p.key := Idl.append_injective _

theorem key_header_ne_payload (a b : String) : Part.header.key a ≠ Part.payload.key b := by
  intro h
  have hfirst := congrArg (fun key => key.toList.head?) h
  simp [Part.key, Part.name] at hfirst

namespace Layout

variable {l : Layout}

theorem keys_slotsOf_sublist (p : Part) (fields : List Field) :
    ((slotsOf p fields).map Slot.key).Sublist ((fields.map Field.name).map p.key) := by
  rw [slotsOf, List.map_map, List.map_map]
  exact List.filter_sublist.map _

theorem nodup_keys_slots (hheader : (l.header.map Field.name).Nodup)
    (hpayload : (l.payload.map Field.name).Nodup) : (l.slots.map Slot.key).Nodup := by
  have hkeys : ((l.header.map Field.name).map Part.header.key ++
      (l.payload.map Field.name).map Part.payload.key).Nodup := by
    rw [List.nodup_append]
    refine ⟨hheader.map (Part.key_injective _), hpayload.map (Part.key_injective _), ?_⟩
    intro a ha b hb
    obtain ⟨x, _, rfl⟩ := List.mem_map.mp ha
    obtain ⟨y, _, rfl⟩ := List.mem_map.mp hb
    exact key_header_ne_payload x y
  rw [slots, List.map_append]
  exact hkeys.sublist ((keys_slotsOf_sublist _ _).append (keys_slotsOf_sublist _ _))

/-- Without bit members each slot has one value. -/
theorem valueKeys_of_bits (h : ∀ f ∈ l.fields, f.bits = none) :
    l.valueKeys = l.slots.map Slot.key := by
  have hmembers : ∀ s ∈ l.slots, s.field.members = [] := by
    intro s hs
    have hfield : s.field ∈ l.fields := by
      rcases List.mem_append.mp hs with hs | hs
      · obtain ⟨f, hf, rfl⟩ := List.mem_map.mp hs
        exact List.mem_append_left _ (List.mem_filter.mp hf).1
      · obtain ⟨f, hf, rfl⟩ := List.mem_map.mp hs
        exact List.mem_append_right _ (List.mem_filter.mp hf).1
    rw [Field.members, h s.field hfield]
    rfl
  rw [valueKeys, ← List.flatMap_pure_eq_map]
  refine List.flatMap_congr fun s hs => ?_
  rw [hmembers s hs]
  rfl

end Layout

/-! ## Documents -/

namespace Idl

/-- The members of a struct that have the type of the header. -/
def Document.headerMembers (d : Document) (s : Struct) : List Member :=
  match d.header? with
  | none => []
  | some h => s.members.filter fun m => isHeaderGroup h (.single m)

section Document

variable {d : Document} {s : Struct} {idText : String}

theorem nodup_structFields (ht : ∀ s ∈ d.structs, s.Apart) (hs : s ∈ d.structs) :
    ((d.structFields s).map Datagram.Field.name).Nodup := by
  have hapart := ht s hs
  rw [Document.structFields, List.map_flatMap]
  apply hapart.nodup
  intro g hg
  exact nodup_groupNames (fun t h => ht t (List.mem_filter.mp h).1) (hapart.word_group hg)

theorem names_withFirstValue (value : String) (fields : List Datagram.Field) :
    (withFirstValue value fields).map Datagram.Field.name = fields.map Datagram.Field.name := by
  cases fields with
  | nil => rfl
  | cons f fields => rfl

theorem names_headerFields (d : Document) (s : Struct) (idText : String) :
    (d.headerFields s idText).map Datagram.Field.name =
      (d.structFields s).map Datagram.Field.name := by
  rw [Document.headerFields, Document.structFields, List.map_flatMap, List.map_flatMap]
  refine List.flatMap_congr fun g _ => ?_
  cases g with
  | bits first rest => rfl
  | single m =>
    dsimp only
    split
    · exact names_withFirstValue idText _
    · rfl

theorem bits_of_mem_headerFields (ht : ∀ s ∈ d.structs, s.Tidy) (hs : s ∈ d.structs)
    {f : Datagram.Field} (h : f ∈ d.headerFields s idText) : f.bits = none := by
  have hfields : ∀ g ∈ d.structFields s, g.bits = none := by
    intro g hg
    exact bits_of_mem_groups (fun t h => ht t (List.mem_filter.mp h).1) (ht s hs)
      (List.Subset.refl _) hg
  obtain ⟨g, hg, rfl | rfl⟩ := mem_headerFields h
  · exact hfields f hg
  · exact hfields g hg

/-- The request of a struct: copies of the header's fields, and the fields of all other groups. -/
theorem requestLayout_eq (d : Document) (s : Struct) (idText : String) :
    ∃ gs : List Group, gs.Sublist (groups s.members) ∧
      (d.requestLayout s idText).payload = gs.flatMap (flatten d.structs d.directives.endian "") ∧
      (d.header? = none → (d.requestLayout s idText).header = []) ∧
      ∀ h, d.header? = some h → (d.requestLayout s idText).header =
        ((groups s.members).filter (Document.isHeaderGroup h)).flatMap fun _ => d.headerFields h idText := by
  unfold Document.requestLayout
  cases hh : d.header? with
  | none => exact ⟨_, List.Sublist.refl _, rfl, fun _ => rfl, nofun⟩
  | some h =>
    dsimp only
    rw [List.partition_eq_filter_filter]
    refine ⟨_, List.filter_sublist, rfl, nofun, ?_⟩
    rintro _ ⟨⟩
    rfl

theorem headerGroups_eq (hs : s.Tidy) {h : Struct} (hh : d.header? = some h) :
    (groups s.members).filter (Document.isHeaderGroup h) = (d.headerMembers s).map .single := by
  rw [Document.headerMembers, hh, groups_of_plain hs.plain, List.filter_map]
  rfl

theorem nodup_valueKeys_requestLayout (ht : ∀ s ∈ d.structs, s.Tidy) (hs : s ∈ d.structs)
    (hone : (d.headerMembers s).length ≤ 1) (idText : String) :
    (d.requestLayout s idText).valueKeys.Nodup := by
  have htidy := ht s hs
  obtain ⟨gs, hgs, hpayload, hnone, hsome⟩ := requestLayout_eq d s idText
  -- There is no copy of the header's fields, or there is one.
  have hheader : (d.requestLayout s idText).header = [] ∨
      ∃ h ∈ d.structs, (d.requestLayout s idText).header = d.headerFields h idText := by
    cases hh : d.header? with
    | none => exact Or.inl (hnone hh)
    | some h =>
      rw [hsome h hh, headerGroups_eq htidy hh, List.flatMap_map]
      cases hmembers : d.headerMembers s with
      | nil => exact Or.inl rfl
      | cons m ms =>
        rw [hmembers] at hone
        have hnil : ms = [] :=
          List.eq_nil_of_length_eq_zero (Nat.le_zero.mp (Nat.le_of_succ_le_succ hone))
        rw [hnil, List.flatMap_singleton]
        exact Or.inr ⟨h, List.mem_of_find?_eq_some hh, rfl⟩
  have hbits : ∀ f ∈ (d.requestLayout s idText).fields, f.bits = none := by
    intro f hf
    rcases List.mem_append.mp hf with hf | hf
    · rcases hheader with hnil | ⟨h, hmem, heq⟩
      · rw [hnil] at hf
        cases hf
      · rw [heq] at hf
        exact bits_of_mem_headerFields ht hmem hf
    · rw [hpayload] at hf
      exact bits_of_mem_groups ht htidy hgs.subset hf
  rw [Layout.valueKeys_of_bits hbits]
  apply Layout.nodup_keys_slots
  · rcases hheader with hnil | ⟨h, hmem, heq⟩
    · rw [hnil]
      exact List.nodup_nil
    · rw [heq, names_headerFields]
      exact nodup_structFields (fun t ht' => (ht t ht').apart) hmem
  · rw [hpayload, List.map_flatMap]
    have hgroups : ∀ g ∈ groups s.members, (groupNames d.structs d.directives.endian g).Nodup :=
      fun g hg => nodup_groupNames (fun t ht' => (ht t ht').apart) (htidy.apart.word_group hg)
    exact (htidy.apart.nodup hgroups).sublist (hgs.flatMap _)

theorem tidy_of_parse {options : Options} {text : String}
    (h : Document.parse options text = .ok d)
    (hplain : ∀ s ∈ d.structs, ∀ m ∈ s.members, m.bitWidth = none)
    (hdistinct : ∀ s ∈ d.structs, (s.members.map Member.name).Nodup) :
    ∀ s ∈ d.structs, s.Tidy :=
  fun s hs => ⟨word_of_parse h hs, hplain s hs, hdistinct s hs⟩

theorem nodup_schemas (ht : ∀ s ∈ d.structs, s.Tidy) {name : String} {k : Component}
    (h : d.schemas.get? name = some k) : (k.fields.map Datagram.Field.name).Nodup := by
  rw [get?_schemas, Dict.lookup_map_eq_find? Struct.name] at h
  obtain ⟨s, hs, rfl⟩ := Option.map_eq_some_iff.mp h
  have huser : s ∈ d.userStructs := List.mem_of_find?_eq_some hs
  exact nodup_structFields (fun t ht' => (ht t ht').apart) (List.mem_filter.mp huser).1

theorem nodup_headers (ht : ∀ s ∈ d.structs, s.Tidy) {name : String} {fields : List Datagram.Field}
    (h : d.components.headers.get? name = some fields) :
    (fields.map Datagram.Field.name).Nodup := by
  unfold Document.components at h
  cases hh : d.header? with
  | none =>
    rw [hh] at h
    cases h
  | some header =>
    rw [hh, Dict.get?_insert] at h
    split at h
    · cases h
      exact nodup_structFields (fun t ht' => (ht t ht').apart) (List.mem_of_find?_eq_some hh)
    · cases h

/-- Where a source has no bit fields and each struct has members of different names, the fields of each
component have different names, and the values of a message with the header at most once have different
keys. -/
theorem nodup_names {options : Options} {text : String} (h : Document.parse options text = .ok d)
    (hplain : ∀ s ∈ d.structs, ∀ m ∈ s.members, m.bitWidth = none)
    (hdistinct : ∀ s ∈ d.structs, (s.members.map Member.name).Nodup) (source : String) :
    (∀ cs, (d.toCatalog source).components = some cs →
      (∀ name k, cs.schemas.get? name = some k → (k.fields.map Datagram.Field.name).Nodup) ∧
        ∀ name fields, cs.headers.get? name = some fields →
          (fields.map Datagram.Field.name).Nodup) ∧
      (∀ key message, (d.toCatalog source).messages.get? key = some message →
        ∃ s ∈ d.structs, ∃ id idText, s.role = .message id idText ∧ key = messageKey id s.name ∧
          message =
            { Message.ofRequest (d.requestLayout s idText) with description := s.comment }) ∧
      ∀ s ∈ d.structs, (d.headerMembers s).length ≤ 1 →
        ∀ idText, (d.requestLayout s idText).valueKeys.Nodup := by
  have ht := tidy_of_parse h hplain hdistinct
  refine ⟨?_, ?_, fun s hs hone => nodup_valueKeys_requestLayout ht hs hone⟩
  · intro cs hcs
    rw [components_toCatalog] at hcs
    split at hcs
    · cases hcs
    · cases hcs
      exact ⟨fun name k => nodup_schemas ht, fun name fields => nodup_headers ht⟩
  · intro key message hmessage
    obtain ⟨s, hs, id, idText, hrole, hentry⟩ :=
      struct_of_mem_messages (Dict.get?_eq_some_iff.mp hmessage)
    exact ⟨s, hs, id, idText, hrole, congrArg Prod.fst hentry, congrArg Prod.snd hentry⟩

/-- Two structs that refer to each other in arrays, and a message that has the header once. -/
theorem nodup_names_cyclic :
    let text := "struct Head //$()$\n\x7b Dot at; \x7d\nstruct Dot \x7b int v[2]; Way on[2]; \x7d\nstruct Way \x7b Dot to[3]; \x7d\nstruct Move //$(7)$\n\x7b Head h; Way by[2]; Dot at[1]; \x7d"
    let head : Struct := ⟨"Head", .header, [
      ⟨"at", "Dot", .struct, none, none, false, ""⟩], ""⟩
    let dot : Struct := ⟨"Dot", .user, [
      ⟨"v", "int", .int true .w32, some 2, none, false, ""⟩,
      ⟨"on", "Way", .struct, some 2, none, false, ""⟩], ""⟩
    let way : Struct := ⟨"Way", .user, [
      ⟨"to", "Dot", .struct, some 3, none, false, ""⟩], ""⟩
    let move : Struct := ⟨"Move", .message 7 "7", [
      ⟨"h", "Head", .struct, none, none, false, ""⟩,
      ⟨"by", "Way", .struct, some 2, none, false, ""⟩,
      ⟨"at", "Dot", .struct, some 1, none, false, ""⟩], ""⟩
    let d : Document := ⟨{}, [head, dot, way, move]⟩
    Document.parse {} text = .ok d ∧
      (∀ s ∈ d.structs, ∀ m ∈ s.members, m.bitWidth = none) ∧
      (∀ s ∈ d.structs, (s.members.map Member.name).Nodup) ∧
      (∃ cs k, (d.toCatalog "").components = some cs ∧ cs.schemas.get? "Way" = some k ∧
        (k.fields.map Datagram.Field.name).Nodup) ∧
      (d.headerMembers move).length = 1 ∧ (d.requestLayout move "7").valueKeys.Nodup := by
  intro text head dot way move d
  have hblank : text.toList.all Text.isBlank = false := by decide +kernel
  have hdocument : documentOf {} text = d := by decide +kernel
  have hparse : Document.parse {} text = .ok d :=
    (parse_eq_documentOf {} hblank).trans (congrArg Except.ok hdocument)
  have hplain : ∀ s ∈ d.structs, ∀ m ∈ s.members, m.bitWidth = none := by decide
  have hdistinct : ∀ s ∈ d.structs, (s.members.map Member.name).Nodup := by decide
  have hmove : move ∈ d.structs := by decide
  have hone : (d.headerMembers move).length = 1 := by decide
  have hfound : d.struct? "Way" = some way := by decide
  have hway : d.schemas.get? "Way" = some (componentOf d way) :=
    get?_schemas_of_user (s := way) hfound rfl
  have hcomponents := components_of_schema hway ""
  obtain ⟨hfields, _, hkeys⟩ := nodup_names hparse hplain hdistinct ""
  exact ⟨hparse, hplain, hdistinct, ⟨_, _, hcomponents, hway, (hfields _ hcomponents).1 _ _ hway⟩,
    hone, hkeys move hmove (Nat.le_of_eq hone) "7"⟩

end Document

end Idl

end Datagram
