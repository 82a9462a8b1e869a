import Datagram.Proofs.Idl.Grammar
import Datagram.Proofs.Idl.Segment

/-! # What a source can declare

Every struct of a document has its role from a marker and every member from a line. So a bit field
has an integer type and at least one of its bits, and a message has the number that the text of its
marker denotes. -/

namespace Datagram.Idl

/-! ## Lines -/

/-- A bit field has an integer type and takes some of its bits. -/
def Member.Sound (m : Member) : Prop :=
  ∀ w, m.bitWidth = some w → m.primitive.isInteger = true ∧ 0 < w ∧ w ≤ m.primitive.bits

theorem Primitive.bits_pos {p : Primitive} (h : p.isInteger = true) : 0 < p.bits := by
  cases p with
  | int signed w => exact Scalar.bits_pos (.int signed w)
  | bool => exact Scalar.bits_pos (.int false .w8)
  | float => cases h
  | double => cases h
  | struct => cases h

theorem MemberLine.sound {types : TypeTable} {line : Line} {m : Member}
    (h : MemberLine types line m) : m.Sound := by
  cases h with
  | @intro _ _ _ _ _ _ width primitive _ _ _ hzero _ =>
    intro w hw
    dsimp only at hw ⊢
    by_cases hinteger : primitive.isInteger = true
    · rw [if_pos hinteger] at hw
      obtain ⟨n, hn, rfl⟩ := Option.map_eq_some_iff.mp hw
      have hbits := Primitive.bits_pos hinteger
      have hn0 : n ≠ 0 := by
        rintro rfl
        exact hzero hinteger (counted_eq_zero_iff.mp hn)
      refine ⟨hinteger, ?_, Nat.min_le_right _ _⟩
      omega
    · rw [if_neg hinteger] at hw
      cases hw

theorem messageId?_of_ofMarker {marker : Option (List Char)} {id : Nat} {idText : String}
    (h : Role.ofMarker marker = .message id idText) : messageId? idText.toList = some id := by
  cases marker with
  | none => cases h
  | some text =>
    rw [Role.ofMarker] at h
    split at h
    · cases h
    · split at h
      · rename_i n hn
        cases h
        rw [String.toList_ofList, hn]
      · cases h

/-! ## Structs -/

/-- A struct that stands in a source. -/
structure Struct.Declared (types : TypeTable) (s : Struct) : Prop where
  role : s.role = .user ∨ ∃ marker, s.role = Role.ofMarker marker
  members : ∀ m ∈ s.members, ∃ line, member? types line = some m

variable {types : TypeTable} {m : Member}

theorem line_of_mem_lineMembers {line : Line} (h : m ∈ lineMembers types line) :
    ∃ l, member? types l = some m := by
  obtain ⟨l, _, hl⟩ := List.mem_filterMap.mp h
  exact ⟨l, hl⟩

theorem line_of_mem_readBody {ls : List Line} (h : m ∈ (readBody types ls).1) :
    ∃ l, member? types l = some m := by
  induction ls with
  | nil => cases h
  | cons l ls ih =>
    rw [readBody] at h
    split at h
    · cases h
    · split at h
      · exact line_of_mem_lineMembers h
      · rcases List.mem_append.mp h with h | h
        · exact line_of_mem_lineMembers h
        · exact ih h

theorem line_of_mem_readOpened {opening : Option Line} {ls : List Line}
    (h : m ∈ (readOpened types opening ls).1) : ∃ l, member? types l = some m := by
  cases opening with
  | none => cases h
  | some text =>
    rw [readOpened] at h
    split at h
    · exact line_of_mem_lineMembers h
    · rcases List.mem_append.mp h with h | h
      · exact line_of_mem_lineMembers h
      · exact line_of_mem_readBody h

theorem line_of_mem_readMembers {heading : Heading} {ls : List Line}
    (h : m ∈ (readMembers types heading ls).1) : ∃ l, member? types l = some m := by
  rw [readMembers_eq] at h
  split at h
  · exact line_of_mem_readOpened h
  · exact line_of_mem_readOpened h

theorem declared_segmentStruct? {seg : List Line} {s : Struct}
    (h : segmentStruct? types seg = some s) : s.Declared types := by
  cases seg with
  | nil => cases h
  | cons l ls =>
    obtain ⟨heading, _, rfl⟩ := Option.map_eq_some_iff.mp h
    exact ⟨Or.inr ⟨heading.marker, rfl⟩, fun m hm => line_of_mem_readMembers hm⟩

theorem mem_of_mem_keepFirstHeader {ss : List Struct} {t : Struct} (h : t ∈ keepFirstHeader ss) :
    ∃ s ∈ ss, KeptOrDemoted s t := by
  have hall := keepFirstHeader_keptOrDemoted ss
  generalize keepFirstHeader ss = ts at h hall
  induction hall with
  | nil => cases h
  | cons hs _ ih =>
    rcases List.mem_cons.mp h with rfl | h
    · exact ⟨_, List.mem_cons_self, hs⟩
    · obtain ⟨s, hmem, hkept⟩ := ih h
      exact ⟨s, List.mem_cons_of_mem _ hmem, hkept⟩

theorem KeptOrDemoted.declared {s t : Struct} (h : KeptOrDemoted s t) (hs : s.Declared types) :
    t.Declared types := by
  rcases h with rfl | ⟨_, rfl⟩
  · exact hs
  · exact ⟨Or.inl rfl, hs.members⟩

variable {options : Options} {text : String} {d : Document} {s : Struct}

theorem declared_of_parse (h : Document.parse options text = .ok d) (hs : s ∈ d.structs) :
    s.Declared options.types := by
  rw [Document.parse] at h
  dsimp only at h
  split at h
  · cases h
  · rw [← Except.ok.inj h] at hs
    obtain ⟨t, ht, hkept⟩ := mem_of_mem_keepFirstHeader hs
    rw [readStructs_eq_segments, List.mem_filterMap] at ht
    obtain ⟨seg, _, hseg⟩ := ht
    exact hkept.declared (declared_segmentStruct? hseg)

theorem sound_of_parse (h : Document.parse options text = .ok d) (hs : s ∈ d.structs) :
    ∀ m ∈ s.members, m.Sound := by
  intro m hm
  obtain ⟨line, hline⟩ := (declared_of_parse h hs).members m hm
  exact (memberLine_of_member? hline).sound

theorem word_of_parse (h : Document.parse options text = .ok d) (hs : s ∈ d.structs) :
    ∀ m ∈ s.members, Word m.name.toList := by
  intro m hm
  obtain ⟨line, hline⟩ := (declared_of_parse h hs).members m hm
  exact (memberLine_of_member? hline).word_name

/-- The number of a message is the one that is read from the text of its marker. -/
theorem messageId?_of_parse (h : Document.parse options text = .ok d) (hs : s ∈ d.structs) {id : Nat}
    {idText : String} (hr : s.role = .message id idText) : messageId? idText.toList = some id := by
  rcases (declared_of_parse h hs).role with huser | ⟨marker, hmarker⟩
  · rw [huser] at hr
    cases hr
  · exact messageId?_of_ofMarker (hmarker.symm.trans hr)

end Datagram.Idl
