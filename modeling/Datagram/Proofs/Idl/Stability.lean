import Datagram.Proofs.Idl.Import
import Mathlib.Data.List.Infix

/-! # Exports that change nothing any more

What comes back of an export has names, comments and bits in the form that an export gives them, so
another export and import leaves it as it is. Messages keep their numbers, as their keys are in the
order of their numbers. -/

namespace Datagram.Idl

open Datagram.Text

/-! ## Fields -/

/-- A field with no marker of a message number in its descriptions. -/
structure FieldUnmarked (f : Datagram.Field) : Prop where
  description : Unmarked f.description.toList
  members : ∀ b ∈ f.members, Unmarked b.description.toList

theorem unmarked_empty : Unmarked "".toList := by
  rintro ⟨a, b, h⟩
  have hlen := congrArg List.length h
  have hmarker : idMarker.length = 6 := by decide
  simp only [List.length_append, hmarker, String.toList_empty, List.length_nil] at hlen
  omega

theorem fieldImage_plainField (e : Endian) (s : Scalar) {name : String} (hn : Word name.toList)
    {description : String} (hd : Unmarked description.toList) :
    fieldImage e (plainField e s name description) = [plainField e s name description] := by
  have hr : (plainField e s name description).isReference = false := by cases s <;> rfl
  have ht : (plainField e s name description).type = .scalar s := by cases s <;> rfl
  have hname : (plainField e s name description).name = name := by cases s <;> rfl
  have hdesc : (plainField e s name description).description = noteText description := by
    cases s <;> rfl
  have hb : exportedBits (plainField e s name description) = [] := by
    have hm : (plainField e s name description).members = [] := by cases s <;> rfl
    rw [List.eq_nil_iff_forall_not_mem]
    intro b hmem
    have := mem_exportedBits hmem
    rw [hm] at this
    cases this
  have himage : fieldImage e (plainField e s name description) =
      [plainField e s (identifier name) (noteText description)] := by
    simp [fieldImage, hr, ht, hb, hname, hdesc]
  have htext : plainField e s name (noteText description) = plainField e s name description := by
    rw [plainField, noteText_noteText hd, plainField]
  rw [himage, identifier_of_word hn, htext]

theorem unmarked_of_mem_cells {width start : Nat} {bs : List BitMember}
    (hb : ∀ b ∈ bs, Unmarked b.description.toList) {c : Cell} (h : c ∈ cells width start bs) :
    Unmarked c.description.toList := by
  rcases mem_cells h with ⟨b, hmem, rfl⟩ | ⟨n, w, rfl⟩
  · exact hb b hmem
  · exact unmarked_empty

/-- The members of cells are in ascending order. -/
theorem ascending_cells {start stop : Nat} (hstop : stop ≤ 64) {cs : List Cell}
    (h : Tiles start stop cs) : Ascending stop start (cs.map Cell.bit) := by
  induction cs generalizing start with
  | nil => trivial
  | cons c cs ih =>
    have hb := h.bounds c List.mem_cons_self
    obtain ⟨hstart, hpos, hcs⟩ := h
    obtain ⟨hfirst, hlast⟩ := c.span_bit hpos (by omega)
    refine ⟨by omega, by omega, ?_⟩
    have hnext : c.bit.span.last + 1 = start + c.width := by omega
    rw [hnext]
    exact ih hcs

/-- The cell of a cell's member. -/
def Cell.again (c : Cell) : Cell := { c with description := noteText c.description }

/-- Cells leave no gap for padding, so they are the cells of their own members. -/
theorem cells_of_cells {start stop : Nat} (hstop : stop ≤ 64) {cs : List Cell}
    (h : Tiles start stop cs) (hn : ∀ c ∈ cs, Word c.name.toList) :
    cells stop start (cs.map Cell.bit) = cs.map Cell.again := by
  have hgap : ∀ a, gapCells a a = [] := by
    intro a
    rw [gapCells, if_neg (Nat.lt_irrefl a)]
  induction cs generalizing start with
  | nil =>
    obtain rfl : start = stop := h
    exact hgap start
  | cons c cs ih =>
    have hb := h.bounds c List.mem_cons_self
    obtain ⟨hstart, hpos, hcs⟩ := h
    obtain ⟨hfirst, hlast⟩ := c.span_bit hpos (by omega)
    have hnext : c.bit.span.last + 1 = start + c.width := by omega
    have hsize : c.bit.span.size = c.width := by
      have := c.bit.span.first_add_size
      omega
    have hname : identifier c.name = c.name := identifier_of_word (hn c List.mem_cons_self)
    have hcell : cellOf c.bit = c.again := by
      rw [cellOf, Cell.again, hfirst, hsize, c.name_bit, hname, c.description_bit]
    rw [List.map_cons, cells, hcell, hfirst, hstart, hgap, List.nil_append, hnext,
      ih hcs fun d hd => hn d (List.mem_cons_of_mem _ hd), List.map_cons]

theorem Cell.name_again (c : Cell) : c.again.name = c.name := by rw [again]

theorem Cell.bit_again {c : Cell} (h : Unmarked c.description.toList) : c.again.bit = c.bit := by
  rw [Cell.bit, Cell.bit, Cell.again]
  simp only [noteText_noteText h]

theorem storageImage_again (e : Endian) (s : Scalar) {cs : List Cell}
    (hu : ∀ c ∈ cs, Unmarked c.description.toList) :
    storageImage e s (cs.map Cell.again) = storageImage e s cs := by
  have hnames : (cs.map Cell.again).map Cell.name = cs.map Cell.name := by
    rw [List.map_map]
    exact List.map_congr_left fun c _ => c.name_again
  have hbits : (cs.map Cell.again).map Cell.bit = cs.map Cell.bit := by
    rw [List.map_map]
    exact List.map_congr_left fun c hc => Cell.bit_again (hu c hc)
  rw [storageImage, hnames, hbits, storageImage]

theorem fieldImage_storageImage (e : Endian) {s : Scalar} (hs : s.isInteger = true)
    {cs : List Cell} (hne : cs ≠ []) (ht : Tiles 0 s.bits cs) (hn : ∀ c ∈ cs, Word c.name.toList)
    (hu : ∀ c ∈ cs, Unmarked c.description.toList) :
    fieldImage e (storageImage e s cs) = [storageImage e s cs] := by
  have hr : (storageImage e s cs).isReference = false := by cases s <;> rfl
  have htype := (type_storageImage e s cs).1
  have hasc := ascending_cells s.bits_le ht
  have hsorted : (cs.map Cell.bit).mergeSort (fun a b => a.span.first ≤ b.span.first) =
      cs.map Cell.bit := by
    apply List.mergeSort_of_pairwise
    exact hasc.pairwise.imp fun h => decide_eq_true h
  have hb : exportedBits (storageImage e s cs) = cs.map Cell.bit := by
    have hi : (FieldType.scalar s).isInteger = true := hs
    rw [exportedBits, htype, if_pos hi, members_storageImage e hs, hsorted,
      Field.bits_of_scalar hr htype, membersFrom_of_ascending hasc]
  have hbne : cs.map Cell.bit ≠ [] := by simpa using hne
  obtain ⟨b, bs, hcons⟩ := List.exists_cons_of_ne_nil hbne
  have himage : fieldImage e (storageImage e s cs) =
      [storageImage e s (cells s.bits 0 (cs.map Cell.bit))] := by
    rw [hcons] at hb ⊢
    simp [fieldImage, hr, htype, hb]
  rw [himage, cells_of_cells s.bits_le ht hn, storageImage_again e s hu]

/-- The image of a field is its own image. -/
theorem fieldImage_of_mem (e : Endian) {f : Datagram.Field} (hf : FieldUnmarked f) :
    ∀ g ∈ fieldImage e f, fieldImage e g = [g] := by
  intro g hg
  obtain ⟨hr, ⟨s, rfl⟩ | ⟨s, ht, hb, rfl⟩ | ⟨i, rfl⟩⟩ := mem_fieldImage hg
  · exact fieldImage_plainField e s (word_identifier f.name) hf.description
  · have hne : cells s.bits 0 (exportedBits f) ≠ [] := by
      obtain ⟨b, bs, hbits⟩ := List.exists_cons_of_ne_nil hb
      rw [hbits]
      exact cells_ne_nil
    have hmembers : ∀ b ∈ exportedBits f, Unmarked b.description.toList := fun b hmem =>
      hf.members b (mem_exportedBits hmem)
    exact fieldImage_storageImage e (isInteger_of_exportedBits hb ht) hne
      (tiles_exportedBits hr ht) (fun c hc => word_of_mem_cells hc)
      (fun c hc => unmarked_of_mem_cells hmembers hc)
  · apply fieldImage_plainField e (.int false .w8) (word_byteName f i)
    by_cases hi : i = 0
    · rw [byteDescription, if_pos hi]
      exact hf.description
    · rw [byteDescription, if_neg hi]
      exact unmarked_empty

theorem flatMap_fieldImage (e : Endian) {fields : List Datagram.Field}
    (hf : ∀ f ∈ fields, FieldUnmarked f) :
    (fields.flatMap (fieldImage e)).flatMap (fieldImage e) = fields.flatMap (fieldImage e) := by
  have hself : ∀ g ∈ fields.flatMap (fieldImage e), fieldImage e g = [g] := by
    intro g hg
    obtain ⟨f, hfm, hg⟩ := List.mem_flatMap.mp hg
    exact fieldImage_of_mem e (hf f hfm) g hg
  rw [List.flatMap_congr hself, List.flatMap_singleton']

theorem textImage_textImage (s : String) : textImage (textImage s) = textImage s := by
  rw [textImage, textImage, String.toList_ofList, collapse_collapse]

theorem componentImage_componentImage (e : Endian) {k : Component}
    (hf : ∀ f ∈ k.fields, FieldUnmarked f) :
    componentImage e (componentImage e k) = componentImage e k := by
  simp only [componentImage, textImage_textImage, flatMap_fieldImage e hf]

theorem messageImage_messageImage (e : Endian) {m : Message}
    (hf : ∀ f ∈ payloadOf m, FieldUnmarked f) :
    messageImage e (messageImage e m) = messageImage e m := by
  have hpayload : payloadOf (messageImage e m) = (payloadOf m).flatMap (fieldImage e) := rfl
  have hdescription : (messageImage e m).description = textImage m.description := rfl
  rw [messageImage, hpayload, hdescription, flatMap_fieldImage e hf, textImage_textImage,
    messageImage]

/-! ## The byte order -/

/-- A field that came back with a byte order. -/
structure Imaged (e : Endian) (f : Datagram.Field) : Prop where
  plain : f.isReference = false
  endian : f.endian = e

theorem imaged_plainField (e : Endian) (s : Scalar) (name description : String) :
    Imaged e (plainField e s name description) := by
  cases s <;> exact ⟨rfl, rfl⟩

theorem imaged_storageImage (e : Endian) (s : Scalar) (cs : List Cell) :
    Imaged e (storageImage e s cs) := by
  cases s <;> exact ⟨rfl, rfl⟩

theorem imaged_of_mem_fieldImage {e : Endian} {f g : Datagram.Field} (h : g ∈ fieldImage e f) :
    Imaged e g := by
  obtain ⟨_, ⟨s, rfl⟩ | ⟨s, _, _, rfl⟩ | ⟨i, rfl⟩⟩ := mem_fieldImage h
  · exact imaged_plainField e s _ _
  · exact imaged_storageImage e s _
  · exact imaged_plainField e _ _ _

theorem imaged_of_mem_flatMap {e : Endian} {fields : List Datagram.Field} {g : Datagram.Field}
    (h : g ∈ fields.flatMap (fieldImage e)) : Imaged e g := by
  obtain ⟨f, _, h⟩ := List.mem_flatMap.mp h
  exact imaged_of_mem_fieldImage h

variable {c : Catalog} {source : String}

theorem mem_schemas_exported {k : String} {v : Component}
    (h : (k, v) ∈ (exportedDocument c).schemas.entries) :
    ∃ x ∈ exportedComponents c, k = identifier x.1 ∧ v = componentImage (exportEndian c) x.2 := by
  rw [← Dict.get?_eq_some_iff, find?_schemas_exported, Option.map_eq_some_iff] at h
  obtain ⟨x, hx, rfl⟩ := h
  have hname : identifier x.1 = k := by simpa using List.find?_some hx
  exact ⟨x, List.mem_of_find?_eq_some hx, hname.symm, rfl⟩

theorem imaged_components (f : Datagram.Field)
    (h : f ∈ (exportedDocument c).schemas.values.flatMap Component.fields ++
      (Dict.empty.insert commonHeader (headerImage (exportEndian c))).values.flatten) :
    Imaged (exportEndian c) f := by
  rcases List.mem_append.mp h with h | h
  · obtain ⟨v, hv, h⟩ := List.mem_flatMap.mp h
    obtain ⟨⟨k, v⟩, hkv, rfl⟩ := List.mem_map.mp hv
    obtain ⟨x, _, _, rfl⟩ := mem_schemas_exported hkv
    exact imaged_of_mem_flatMap h
  · have hvalues : (Dict.empty.insert commonHeader (headerImage (exportEndian c))).values.flatten =
        headerImage (exportEndian c) := rfl
    rw [hvalues] at h
    rcases List.mem_pair.mp h with rfl | rfl
    · exact imaged_plainField _ _ _ _
    · exact imaged_plainField _ _ _ _

/-- What comes back has the byte order that it was exported with. -/
theorem firstEndian?_roundTrip (c : Catalog) (source : String) :
    firstEndian? (roundTrip c source) = some (exportEndian c) := by
  rw [firstEndian?, components_roundTrip, Option.elim_some]
  dsimp only
  -- The header stands among the components, so the first field is one that came back.
  generalize ((roundTrip c source).messages.values.flatMap fun m =>
    m.request.elim [] fun l => l.header ++ l.payload) = requests
  have hmem : plainField (exportEndian c) (.int false .w16) "MsgID" "" ∈
      (exportedDocument c).schemas.values.flatMap Component.fields ++
        (Dict.empty.insert commonHeader (headerImage (exportEndian c))).values.flatten :=
    List.mem_append_right _ List.mem_cons_self
  obtain ⟨f, fs, hfs⟩ := List.exists_cons_of_ne_nil (List.ne_nil_of_mem hmem)
  have hf : Imaged (exportEndian c) f := by
    apply imaged_components f
    rw [hfs]
    exact List.mem_cons_self
  rw [hfs, List.cons_append, List.find?_cons_of_pos (by simp [hf.plain]), Option.map_some, hf.endian]

theorem directives_roundTrip (c : Catalog) (source : String) :
    (exportedDocument (roundTrip c source)).directives = (exportedDocument c).directives := by
  have hfirst := firstEndian?_roundTrip c source
  have hbig : ∀ b : Bool, decide (some (Directives.endian ⟨1, b⟩) ≠ some Endian.little) = b := by
    intro b
    cases b <;> rfl
  have hendian : exportEndian c =
      Directives.endian ⟨1, decide (firstEndian? c ≠ some .little)⟩ := rfl
  rw [exportedDocument, exportedDocument, hfirst, hendian, hbig]

theorem exportEndian_roundTrip (c : Catalog) (source : String) :
    exportEndian (roundTrip c source) = exportEndian c := by
  rw [exportEndian, directives_roundTrip, exportEndian]

/-! ## The catalogue -/

/-- Of so few messages all have a number. -/
theorem filter_numbered {α : Type} {xs : List α} (h : xs.length ≤ 9999) :
    xs.zipIdx.filter (fun x => x.2 + 1 < UInt32.size) = xs.zipIdx := by
  rw [List.filter_eq_self]
  intro x hx
  have hlt : x.2 < xs.length := by simpa using List.snd_lt_of_mem_zipIdx hx
  rw [decide_eq_true_eq]
  simp only [UInt32.size]
  omega

/-- Messages whose numbers have four digits come back in their order. -/
theorem entries_messages (hsize : c.messages.size ≤ 9999) :
    (exportedDocument c).messages.entries =
      c.messages.entries.zipIdx.map (messageEntry (exportEndian c)) := by
  have hbound : ∀ x ∈ c.messages.entries.zipIdx, x.2 < 9999 := by
    intro x hx
    have hlt : x.2 < c.messages.entries.length := by
      simpa using List.snd_lt_of_mem_zipIdx hx
    exact Nat.lt_of_lt_of_le hlt hsize
  -- With a fifth digit, the key of message 10000 would stand in front of that of message 9999.
  have hsorted : (c.messages.entries.zipIdx.map (messageEntry (exportEndian c))).Pairwise
      fun a b => a.1 < b.1 := by
    refine List.pairwise_map.mpr ((pairwise_zipIdx c.messages.entries 0).imp_of_mem ?_)
    intro x y _ hy hlt
    have := hbound y hy
    exact messageKey_lt (by omega) (by omega) _ _
  rw [messages_exported, filter_numbered hsize, Dict.ofList_eq_of_pairwise hsorted]

theorem size_roundTrip (hsize : c.messages.size ≤ 9999) (source : String) :
    (roundTrip c source).messages.size = c.messages.size := by
  have hmessages : (roundTrip c source).messages = (exportedDocument c).messages := rfl
  rw [hmessages, Dict.size, entries_messages hsize, List.length_map, List.length_zipIdx, Dict.size]

theorem zipIdx_zipIdx {α : Type} (l : List α) (k : Nat) :
    (l.zipIdx k).zipIdx k = (l.zipIdx k).map fun x => (x, x.2) := by
  induction l generalizing k with
  | nil => rfl
  | cons a l ih => rw [List.zipIdx_cons, List.zipIdx_cons, ih, List.map_cons]

/-- The fields that an export has lines for. -/
def exportedFields (c : Catalog) : List Datagram.Field :=
  (schemaEntries c).flatMap (·.2.fields) ++ c.messages.entries.flatMap fun x => payloadOf x.2

theorem messageEntry_again {e : Endian} {x : (String × Message) × Nat}
    (hf : ∀ f ∈ payloadOf x.1.2, FieldUnmarked f) :
    messageEntry e (messageEntry e x, x.2) = messageEntry e x := by
  have hname := identifier_ne_empty (messageName x.1.1)
  simp only [messageEntry, messageName_messageKey _ hname, identifier_identifier,
    messageImage_messageImage e hf]

theorem messages_roundTrip (hsize : c.messages.size ≤ 9999)
    (hf : ∀ f ∈ exportedFields c, FieldUnmarked f) (source : String) :
    (exportedDocument (roundTrip c source)).messages = (exportedDocument c).messages := by
  have hmessages : (roundTrip c source).messages = (exportedDocument c).messages := rfl
  have hentries := entries_messages hsize
  have hagain : (roundTrip c source).messages.size ≤ 9999 := by rwa [size_roundTrip hsize]
  have hself : ∀ x ∈ c.messages.entries.zipIdx,
      messageEntry (exportEndian c) (messageEntry (exportEndian c) x, x.2) =
        messageEntry (exportEndian c) x := by
    intro x hx
    apply messageEntry_again
    intro f hmem
    apply hf
    exact List.mem_append_right _
      (List.mem_flatMap.mpr ⟨x.1, List.fst_mem_of_mem_zipIdx hx, hmem⟩)
  have heq : (exportedDocument (roundTrip c source)).messages.entries =
      (exportedDocument c).messages.entries := by
    rw [entries_messages hagain, exportEndian_roundTrip, hmessages, hentries, List.zipIdx_map,
      zipIdx_zipIdx, List.map_map, List.map_map]
    exact List.map_congr_left hself
  exact Dict.ext_get? fun k => by rw [Dict.get?, Dict.get?, heq]

theorem exportedComponents_of_size (hsize : c.messages.size ≤ 9999) :
    exportedComponents c = schemaEntries c := by
  have hdrop : c.messages.entries.drop (UInt32.size - 1) = [] := by
    rw [List.drop_eq_nil_iff]
    have hlen : c.messages.entries.length ≤ 9999 := hsize
    simp only [UInt32.size]
    omega
  rw [exportedComponents, hdrop, List.map_nil, List.append_nil]

theorem schemas_roundTrip (hsize : c.messages.size ≤ 9999)
    (hf : ∀ f ∈ exportedFields c, FieldUnmarked f) (source : String) :
    (exportedDocument (roundTrip c source)).schemas = (exportedDocument c).schemas := by
  have hagain : (roundTrip c source).messages.size ≤ 9999 := by rwa [size_roundTrip hsize]
  have hentries : schemaEntries (roundTrip c source) = (exportedDocument c).schemas.entries := by
    rw [schemaEntries, components_roundTrip]
    rfl
  have hself : ∀ x ∈ (exportedDocument c).schemas.entries,
      (identifier x.1, componentImage (exportEndian c) x.2) = id x := by
    rintro ⟨k, v⟩ hx
    obtain ⟨y, hy, rfl, rfl⟩ := mem_schemas_exported hx
    rw [exportedComponents_of_size hsize] at hy
    have hfields : ∀ f ∈ y.2.fields, FieldUnmarked f := by
      intro f hmem
      apply hf
      exact List.mem_append_left _ (List.mem_flatMap.mpr ⟨y, hy, hmem⟩)
    rw [identifier_identifier, componentImage_componentImage _ hfields, id]
  apply Dict.ext_get?
  intro name
  rw [get?_schemas_exported, exportedComponents_of_size hagain, hentries, exportEndian_roundTrip,
    List.map_congr_left hself, List.map_id, Dict.get?]

/-- A catalogue that came back of an export comes back of its own export unchanged. -/
theorem roundTrip_roundTrip (hsize : c.messages.size ≤ 9999)
    (hf : ∀ f ∈ exportedFields c, FieldUnmarked f) (source : String) :
    roundTrip (roundTrip c source) source = roundTrip c source := by
  have hdirectives := directives_roundTrip c source
  have hmessages := messages_roundTrip hsize hf source
  have hcomponents : (exportedDocument (roundTrip c source)).components =
      (exportedDocument c).components := by
    rw [components_exported, components_exported, schemas_roundTrip hsize hf,
      exportEndian_roundTrip]
  rw [roundTrip, Document.toCatalog, hdirectives, hmessages, hcomponents]
  rfl

/-- Export is stable after one cycle: both exports are parsed, and the second one brings back what
the first one did. -/
theorem export_stable (c : Catalog) (source : String) (hsize : c.messages.size ≤ 9999)
    (hf : ∀ f ∈ exportedFields c, FieldUnmarked f) :
    ∃ d d', Document.parse {} c.toIdl = .ok d ∧
      Document.parse {} (d.toCatalog source).toIdl = .ok d' ∧
      d'.toCatalog source = d.toCatalog source :=
  ⟨exportedDocument c, exportedDocument (roundTrip c source), parse_toIdl c,
    parse_toIdl (roundTrip c source), roundTrip_roundTrip hsize hf source⟩

/-- A flag between gaps, under a name and with a comment that would break a line. -/
theorem export_stable_flag :
    let flag := { BitMember.single "on;\n" 3 with description := "a \x7d //$( \n b" }
    let field := (Field.new "state[2]" .byte).withBits [flag]
    let c : Catalog := { messages := Dict.empty.insert "Msg_7_x" (.ofRequest ⟨[], [field]⟩) }
    ∃ d d', Document.parse {} c.toIdl = .ok d ∧
      Document.parse {} (d.toCatalog "export").toIdl = .ok d' ∧
      d'.toCatalog "export" = d.toCatalog "export" := by
  intro flag field c
  refine export_stable c "export" (by decide) fun f hf => ?_
  have hfields : exportedFields c = [field] := rfl
  rw [hfields, List.mem_singleton] at hf
  subst hf
  constructor
  · exact unmarked_empty
  · intro b hb
    rw [List.mem_singleton.mp hb]
    show ¬ idMarker <:+: "a \x7d //$( \n b".toList
    decide +kernel

end Datagram.Idl
