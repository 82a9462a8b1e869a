import Datagram.Proofs.Catalog.Json
import Datagram.Proofs.Idl.Expansion
import Datagram.Proofs.Idl.Lookup
import Datagram.Proofs.Idl.Segment

/-! # Imported catalogues are well formed

However a document is cut, expanded and distributed over components and messages, each field comes from
a member of primitive type or from a storage unit. So it has no size of its own and refers to nothing,
and the catalogue is read back from JSON as it is. -/

namespace Datagram

/-! ## Fields -/

/-- A field as documents give it: in one byte order, without a reference or a size of its own, and with
bit members only if it is an integer. -/
structure Field.Imported (e : Endian) (f : Field) : Prop where
  target : f.target = none
  size : f.size = none
  endian : f.endian = e
  bits : f.bits ≠ none → f.type.isInteger = true

namespace Field

variable {e : Endian} {f : Field}

theorem imported_new (e : Endian) (name : String) (s : Scalar) :
    ((Field.new name (.scalar s)).withEndian e).Imported e where
  target := rfl
  size := rfl
  endian := rfl
  bits := by
    intro h
    cases hs : s.isInteger with
    | true => exact hs
    | false =>
      refine absurd ?_ h
      exact if_neg (Bool.eq_false_iff.mp hs)

theorem Imported.withDescription (h : f.Imported e) (description : String) :
    (f.withDescription description).Imported e :=
  ⟨h.target, h.size, h.endian, h.bits⟩

theorem Imported.withValue (h : f.Imported e) (value : String) : (f.withValue value).Imported e :=
  ⟨h.target, h.size, h.endian, h.bits⟩

theorem Imported.withBits (h : f.Imported e) (bits : List BitMember) :
    (f.withBits bits).Imported e := by
  unfold Field.withBits
  split
  · rename_i hinteger
    exact ⟨h.target, h.size, h.endian, fun _ => hinteger⟩
  · exact h

end Field

namespace Idl

variable {structs : List Struct} {e : Endian} {pre : String} {f : Datagram.Field}

theorem imported_storageField (e : Endian) (pre : String) (scalar : Scalar) (run : List Member) :
    (storageField e pre scalar run).Imported e :=
  (Field.imported_new e _ scalar).withBits _

theorem imported_of_mem_scalarFields {scalar : Scalar} {m : Member}
    (h : f ∈ scalarFields e pre scalar m) : f.Imported e := by
  unfold scalarFields at h
  dsimp only at h
  split at h
  · rw [List.mem_singleton.mp h]
    exact (Field.imported_new e _ scalar).withDescription m.comment
  · obtain ⟨i, _, rfl⟩ := List.mem_map.mp h
    split
    · exact (Field.imported_new e _ scalar).withDescription m.comment
    · exact Field.imported_new e _ scalar

theorem imported_of_mem_flatten {g : Group} (h : f ∈ flatten structs e pre g) : f.Imported e := by
  induction structs using expansion_induction generalizing pre g with
  | step structs ih =>
    cases g with
    | bits first rest =>
      rw [flatten] at h
      split at h
      · rw [List.mem_singleton.mp h]
        exact imported_storageField e pre _ _
      · cases h
    | single m =>
      cases hp : m.primitive.scalar? with
      | some scalar =>
        rw [flatten_of_scalar hp] at h
        exact imported_of_mem_scalarFields h
      | none =>
        cases hs : findStruct? structs m.typeName with
        | none =>
          rw [flatten_of_none hp hs] at h
          cases h
        | some s =>
          rw [flatten_of_some hp hs] at h
          obtain ⟨i, _, h⟩ := List.mem_flatMap.mp h
          obtain ⟨g, _, h⟩ := List.mem_flatMap.mp h
          exact ih _ s hs h

variable {d : Document}

theorem imported_of_mem_flatMap {gs : List Group} (h : f ∈ gs.flatMap (flatten structs e pre)) :
    f.Imported e := by
  obtain ⟨g, _, h⟩ := List.mem_flatMap.mp h
  exact imported_of_mem_flatten h

theorem imported_of_mem_structFields {s : Struct} (h : f ∈ d.structFields s) :
    f.Imported d.directives.endian :=
  imported_of_mem_flatMap h

theorem mem_withFirstValue {value : String} {fields : List Datagram.Field}
    (h : f ∈ withFirstValue value fields) : ∃ g ∈ fields, f = g ∨ f = g.withValue value := by
  cases fields with
  | nil => cases h
  | cons first fields =>
    rcases List.mem_cons.mp h with rfl | h
    · exact ⟨first, List.mem_cons_self, Or.inr rfl⟩
    · exact ⟨f, List.mem_cons_of_mem _ h, Or.inl rfl⟩

/-- The fields of a header are those of its struct, where some may have the number as their value. -/
theorem mem_headerFields {s : Struct} {idText : String} (h : f ∈ d.headerFields s idText) :
    ∃ g ∈ d.structFields s, f = g ∨ f = g.withValue idText := by
  obtain ⟨group, hgroup, h⟩ := List.mem_flatMap.mp h
  have hfields : ∀ g ∈ flatten (without d.structs s.name) d.directives.endian "" group,
      g ∈ d.structFields s := fun g hg => List.mem_flatMap.mpr ⟨group, hgroup, hg⟩
  dsimp only at h
  split at h
  · split at h
    · obtain ⟨g, hg, hfg⟩ := mem_withFirstValue h
      exact ⟨g, hfields g hg, hfg⟩
    · exact ⟨f, hfields f h, Or.inl rfl⟩
  · exact ⟨f, hfields f h, Or.inl rfl⟩

theorem imported_of_mem_headerFields {s : Struct} {idText : String}
    (h : f ∈ d.headerFields s idText) : f.Imported d.directives.endian := by
  obtain ⟨g, hg, rfl | rfl⟩ := mem_headerFields h
  · exact imported_of_mem_structFields hg
  · exact (imported_of_mem_structFields hg).withValue idText

end Idl

/-! ## Catalogues -/

def Layout.fields (l : Layout) : List Field := l.header ++ l.payload

def Message.fields (m : Message) : List Field :=
  m.request.elim [] Layout.fields ++ m.response.elim [] Layout.fields

def Components.fields (k : Components) : List Field :=
  k.schemas.values.flatMap Component.fields ++ k.headers.values.flatten

/-- All fields of a catalogue: those of its components and those of its messages. -/
def Catalog.fields (c : Catalog) : List Field :=
  c.components.elim [] Components.fields ++ c.messages.values.flatMap Message.fields

namespace Idl

variable {d : Document} {f : Datagram.Field}

theorem imported_of_mem_requestLayout {s : Struct} {idText : String}
    (h : f ∈ (d.requestLayout s idText).fields) : f.Imported d.directives.endian := by
  unfold Document.requestLayout Layout.fields at h
  cases hh : d.header? with
  | none =>
    rw [hh] at h
    exact imported_of_mem_flatMap h
  | some header =>
    rw [hh] at h
    rcases List.mem_append.mp h with h | h
    · obtain ⟨_, _, h⟩ := List.mem_flatMap.mp h
      exact imported_of_mem_headerFields h
    · exact imported_of_mem_flatMap h

theorem imported_of_mem_components (h : f ∈ d.components.fields) :
    f.Imported d.directives.endian := by
  rcases List.mem_append.mp h with h | h
  · obtain ⟨k, hk, h⟩ := List.mem_flatMap.mp h
    obtain ⟨⟨name, _⟩, hentry, rfl⟩ := List.mem_map.mp hk
    have hget : d.schemas.get? name = some _ := Dict.get?_eq_some_iff.mpr hentry
    rw [get?_schemas, Dict.lookup_map_eq_find? Struct.name] at hget
    obtain ⟨s, _, hs⟩ := Option.map_eq_some_iff.mp hget
    rw [← hs] at h
    exact imported_of_mem_structFields h
  · unfold Document.components at h
    cases hh : d.header? with
    | none =>
      rw [hh] at h
      cases h
    | some header =>
      rw [hh] at h
      obtain ⟨fields, hfields, h⟩ := List.mem_flatten.mp h
      rw [List.mem_singleton.mp hfields] at h
      exact imported_of_mem_structFields h

/-- The messages of a document are those of its structs, with a request and nothing else with
fields. -/
theorem struct_of_mem_messages {x : String × Message} (h : x ∈ d.messages.entries) :
    ∃ s ∈ d.structs, ∃ id idText, s.role = .message id idText ∧ x = (messageKey id s.name,
      { Message.ofRequest (d.requestLayout s idText) with description := s.comment }) := by
  obtain ⟨⟨t, id, idText⟩, hmem, hx⟩ :=
    List.mem_map.mp (Dict.mem_of_get?_ofList (Dict.get?_eq_some_iff.mpr h))
  obtain ⟨s, hs, hmessage⟩ := List.mem_filterMap.mp hmem
  split at hmessage
  · rename_i hrole
    cases hmessage
    exact ⟨t, hs, id, idText, hrole, hx.symm⟩
  · cases hmessage

theorem imported_of_mem_messages {x : String × Message} (hx : x ∈ d.messages.entries)
    (h : f ∈ x.2.fields) : f.Imported d.directives.endian := by
  obtain ⟨s, _, _, idText, _, rfl⟩ := struct_of_mem_messages hx
  have hrequest : f ∈ (d.requestLayout s idText).fields ++ [] := h
  rw [List.append_nil] at hrequest
  exact imported_of_mem_requestLayout hrequest

theorem imported_of_mem_toCatalog {source : String} (h : f ∈ (d.toCatalog source).fields) :
    f.Imported d.directives.endian := by
  rcases List.mem_append.mp h with h | h
  · rw [components_toCatalog] at h
    split at h
    · cases h
    · exact imported_of_mem_components h
  · obtain ⟨m, hm, h⟩ := List.mem_flatMap.mp h
    obtain ⟨x, hx, rfl⟩ := List.mem_map.mp hm
    exact imported_of_mem_messages hx h

/-- The title of an imported catalogue is the name of its source or says that it is imported. -/
theorem validate_toCatalog (d : Document) (source : String) :
    (d.toCatalog source).validate = .ok () := by
  have htitle : (d.toCatalog source).info.title.toList.all Text.isBlank = false := by
    unfold Document.toCatalog
    dsimp only
    split
    · decide
    · rename_i hne
      rw [String.toList_ofList]
      refine Text.not_blank_trimEnd fun hnil => hne ?_
      rw [Text.trim, hnil]
  have hrequests : (d.toCatalog source).messages.entries.find? (·.2.request.isNone) = none := by
    rw [List.find?_eq_none]
    intro x hx
    obtain ⟨s, _, _, idText, _, rfl⟩ := struct_of_mem_messages hx
    exact Bool.false_ne_true
  rw [Catalog.validate, htitle, hrequests]
  rfl

theorem settled_toCatalog (d : Document) (source : String) : (d.toCatalog source).Settled := by
  intro k _ x hx l hl f hf
  have hfield : f ∈ x.2.fields := by
    unfold Message.fields
    rcases hl with hl | hl
    · rw [hl]
      exact List.mem_append_left _ hf
    · rw [hl]
      exact List.mem_append_right _ hf
  have htarget := (imported_of_mem_messages hx hfield).target
  rw [Field.target?, htarget]
  rfl

/-- Any source that is not blank is a document, and the catalogue of this document is valid, has
fields without references and sizes in the byte order of the document, with bit members only in
integers, and is read back from JSON as it was written. -/
theorem wellFormed_of_source (options : Options) {text : String}
    (h : text.toList.all Text.isBlank = false) (source : String) :
    ∃ d, Document.parse options text = .ok d ∧ (d.toCatalog source).validate = .ok () ∧
      (∀ f ∈ (d.toCatalog source).fields, f.Imported d.directives.endian) ∧
      Catalog.ofJsonText (d.toCatalog source).toJsonText = .ok (d.toCatalog source) := by
  let d := documentOf options text
  refine ⟨d, parse_eq_documentOf options h, validate_toCatalog d source,
    fun f hf => imported_of_mem_toCatalog hf, ?_⟩
  rw [Catalog.ofJsonText_toJsonText_eq, validate_toCatalog,
    Catalog.resolve_of_settled (settled_toCatalog d source)]
  rfl

/-- A source with a stray line and no closing brace: a header of bits, and a message that holds itself. -/
theorem wellFormed_of_source_unclosed :
    let text := "//+most_byte=no\nstruct H //$()$\n\x7bbool a:1;bool b:9;\n;\nstruct M //$(3)$\n\x7bH h;M m;float x[2];"
    let h : Struct := ⟨"H", .header, [
      ⟨"a", "bool", .bool, none, some 1, false, ""⟩, ⟨"b", "bool", .bool, none, some 8, false, ""⟩], ""⟩
    let m : Struct := ⟨"M", .message 3 "3", [
      ⟨"h", "H", .struct, none, none, false, ""⟩, ⟨"m", "M", .struct, none, none, false, ""⟩,
      ⟨"x", "float", .float, some 2, none, false, ""⟩], ""⟩
    let c := Document.toCatalog ⟨⟨1, false⟩, [h, m]⟩ "\t"
    Document.parse {} text = .ok ⟨⟨1, false⟩, [h, m]⟩ ∧
      c.fields.map Field.name = ["a", "b", "a", "b", "m.h.a", "m.h.b", "m.x[0]", "m.x[1]", "x[0]", "x[1]"] ∧
      c.validate = .ok () ∧ (∀ f ∈ c.fields, f.Imported .little) ∧
      Catalog.ofJsonText c.toJsonText = .ok c := by
  intro text h m c
  have hblank : text.toList.all Text.isBlank = false := by decide +kernel
  have hdocument : documentOf {} text = ⟨⟨1, false⟩, [h, m]⟩ := by decide +kernel
  have hparse : Document.parse {} text = .ok ⟨⟨1, false⟩, [h, m]⟩ :=
    hdocument ▸ parse_eq_documentOf {} hblank
  obtain ⟨d, hd, hvalid, hfields, hjson⟩ := wellFormed_of_source {} hblank "\t"
  rw [hparse] at hd
  cases hd
  exact ⟨hparse, by decide +kernel, hvalid, hfields, hjson⟩

end Idl

end Datagram
