import Datagram.Proofs.Idl.Image
import Datagram.Proofs.Idl.Lookup

/-! # What comes back of an exported catalogue

The header of every export, a component for each name of a schema, and a message for each number,
with the images of the exported fields. -/

namespace Datagram.Idl

open Datagram.Text

/-! ## Components -/

/-- The byte order that everything comes back with. -/
def exportEndian (c : Catalog) : Endian := (exportedDocument c).directives.endian

def textImage (s : String) : String := String.ofList (collapse s.toList)

def componentImage (e : Endian) (k : Component) : Component where
  description := textImage k.description
  fields := k.fields.flatMap (fieldImage e)

def messageImage (e : Endian) (m : Message) : Message :=
  { Message.ofRequest ⟨[], (payloadOf m).flatMap (fieldImage e)⟩ with
    description := textImage m.description }

/-- What an export has structs for that are no messages: the component schemas, and behind them the
messages whose number takes more than 32 bits. -/
def exportedComponents (c : Catalog) : List (String × Component) :=
  schemaEntries c ++ (c.messages.entries.drop (UInt32.size - 1)).map fun e =>
    (messageName e.1, { description := e.2.description, fields := payloadOf e.2 })

theorem map_filter_zipIdx {α : Type} (l : List α) (k n : Nat) :
    ((l.zipIdx k).filter (fun x => n ≤ x.2)).map Prod.fst = l.drop (n - k) := by
  induction l generalizing k with
  | nil => simp
  | cons a l ih =>
    have ih := ih (k + 1)
    rw [List.zipIdx_cons, List.filter_cons]
    by_cases hk : n ≤ k
    · have hsub : n - k = 0 := by omega
      have hsub' : n - (k + 1) = 0 := by omega
      rw [hsub', List.drop_zero] at ih
      simp [hk, hsub, ih]
    · have hsub : n - k = n - (k + 1) + 1 := by omega
      simp [hk, hsub, ih]

theorem role_messageStruct (e : (String × Message) × Nat) :
    decide ((messageStruct e).role = .user) = decide (UInt32.size - 1 ≤ e.2) := by
  have hrole : (messageStruct e).role = markedRole (some (e.2 + 1)) := rfl
  by_cases h : e.2 + 1 < UInt32.size
  · have hlt : ¬ UInt32.size - 1 ≤ e.2 := by omega
    rw [hrole, markedRole_of_lt h, decide_eq_false hlt]
    rfl
  · have hle : UInt32.size - 1 ≤ e.2 := by
      simp only [UInt32.size] at h ⊢
      omega
    rw [hrole, markedRole_of_not_lt h, decide_eq_true hle]
    rfl

theorem userStructs_exported (c : Catalog) : (exportedDocument c).userStructs =
    (exportedComponents c).map schemaStruct := by
  have hheader : decide (headerStruct.role = .user) = false := rfl
  have hschemas : ∀ s ∈ (schemaEntries c).map schemaStruct, decide (s.role = .user) = true := by
    intro s hs
    obtain ⟨e, _, rfl⟩ := List.mem_map.mp hs
    rfl
  have hmessages : (c.messages.entries.zipIdx.map messageStruct).filter (·.role = .user) =
      (c.messages.entries.drop (UInt32.size - 1)).map fun e =>
        schemaStruct (messageName e.1, { description := e.2.description, fields := payloadOf e.2 }) := by
    have hroles : c.messages.entries.zipIdx.filter
        ((fun s : Struct => decide (s.role = .user)) ∘ messageStruct) =
        c.messages.entries.zipIdx.filter (fun e => UInt32.size - 1 ≤ e.2) :=
      List.filter_congr fun e _ => role_messageStruct e
    have hdrop := map_filter_zipIdx c.messages.entries 0 (UInt32.size - 1)
    rw [Nat.sub_zero] at hdrop
    rw [List.filter_map, hroles, ← hdrop, List.map_map]
    apply List.map_congr_left
    intro e he
    have hle := of_decide_eq_true (List.mem_filter.mp he).2
    have hrole : markedRole (some (e.2 + 1)) = .user := by
      apply markedRole_of_not_lt
      simp only [UInt32.size] at hle ⊢
      omega
    rw [messageStruct, exportedStruct, hrole]
    rfl
  rw [Document.userStructs, exportedDocument, List.filter_cons_of_neg (by simp [hheader]),
    exportedStructs, List.filter_append, List.filter_eq_self.mpr hschemas, hmessages,
    exportedComponents, List.map_append, List.map_map]
  rfl

theorem get?_schemas_exported (c : Catalog) (name : String) :
    (exportedDocument c).schemas.get? name =
      ((exportedComponents c).map fun e =>
        (identifier e.1, componentImage (exportEndian c) e.2)).lookup name := by
  rw [get?_schemas, userStructs_exported, List.map_map]
  congr 1
  apply List.map_congr_left
  intro e _
  rw [Function.comp_apply, componentOf, schemaStruct, structFields_exported]
  rfl

/-- Of schemas that are written with one name the first comes back. -/
theorem find?_schemas_exported (c : Catalog) (name : String) :
    (exportedDocument c).schemas.get? name =
      ((exportedComponents c).find? fun x => identifier x.1 = name).map fun x =>
        componentImage (exportEndian c) x.2 := by
  rw [get?_schemas_exported]
  exact Dict.lookup_map_eq_find? (fun x => identifier x.1)
    (fun x => componentImage (exportEndian c) x.2) (exportedComponents c) name

theorem components_exported (c : Catalog) : (exportedDocument c).components =
    ⟨(exportedDocument c).schemas,
      Dict.empty.insert commonHeader (headerImage (exportEndian c))⟩ := by
  have hheader : (exportedDocument c).header? = some headerStruct := rfl
  unfold Document.components
  simp only [hheader, structFields_header]
  rfl

/-- The catalogue that comes back of an export. -/
def roundTrip (c : Catalog) (source : String) : Catalog := (exportedDocument c).toCatalog source

theorem components_roundTrip (c : Catalog) (source : String) : (roundTrip c source).components =
    some ⟨(exportedDocument c).schemas,
      Dict.empty.insert commonHeader (headerImage (exportEndian c))⟩ := by
  have hnonempty : (exportedDocument c).components.isEmpty ≠ true := by
    rw [components_exported, Components.isEmpty]
    simp [Dict.isEmpty, Dict.insert, Dict.empty, Dict.insertEntry]
  rw [roundTrip, components_toCatalog, if_neg hnonempty, components_exported]

/-! ## Messages -/

/-- The entry that a numbered message comes back as. -/
def messageEntry (e : Endian) (x : (String × Message) × Nat) : String × Message :=
  (messageKey (x.2 + 1) (identifier (messageName x.1.1)), messageImage e x.1.2)

theorem messageOf?_messageStruct (x : (String × Message) × Nat) :
    messageOf? (messageStruct x) =
      if decide (x.2 + 1 < UInt32.size) then
        some (messageStruct x, x.2 + 1, String.ofList (decimal (x.2 + 1))) else none := by
  have hrole : (messageStruct x).role = markedRole (some (x.2 + 1)) := rfl
  by_cases h : x.2 + 1 < UInt32.size
  · rw [messageOf?, hrole, markedRole_of_lt h, if_pos (decide_eq_true h)]
  · rw [messageOf?, hrole, markedRole_of_not_lt h, if_neg (by simpa using h)]

theorem messageStructs_exported (c : Catalog) : (exportedDocument c).messageStructs =
    (c.messages.entries.zipIdx.filter (fun x => x.2 + 1 < UInt32.size)).map fun x =>
      (messageStruct x, x.2 + 1, String.ofList (decimal (x.2 + 1))) := by
  have hschemas : ((schemaEntries c).map schemaStruct).filterMap messageOf? = [] := by
    rw [List.filterMap_map, List.filterMap_eq_nil_iff]
    intro e _
    rfl
  have hmessages : (c.messages.entries.zipIdx.map messageStruct).filterMap messageOf? =
      (c.messages.entries.zipIdx.filter (fun x => x.2 + 1 < UInt32.size)).map fun x =>
        (messageStruct x, x.2 + 1, String.ofList (decimal (x.2 + 1))) := by
    rw [List.filterMap_map, ← List.filterMap_eq_map', List.filterMap_filter]
    exact List.filterMap_congr fun x _ => messageOf?_messageStruct x
  have hstructs : (exportedDocument c).messageStructs =
      (headerStruct :: exportedStructs c).filterMap messageOf? := rfl
  have hheader : messageOf? headerStruct = none := rfl
  rw [hstructs, List.filterMap_cons_none hheader, exportedStructs, List.filterMap_append, hschemas,
    hmessages, List.nil_append]

theorem messages_exported (c : Catalog) : (exportedDocument c).messages =
    Dict.ofList ((c.messages.entries.zipIdx.filter (fun x => x.2 + 1 < UInt32.size)).map
      (messageEntry (exportEndian c))) := by
  rw [Document.messages, messageStructs_exported, List.map_map]
  congr 1
  apply List.map_congr_left
  intro x _
  simp only [Function.comp_apply, messageStruct, requestLayout_exported]
  rfl

theorem pairwise_zipIdx {α : Type} (l : List α) (k : Nat) :
    (l.zipIdx k).Pairwise fun a b => a.2 < b.2 := by
  have h : ((l.zipIdx k).map Prod.snd).Pairwise (· < ·) := by
    rw [List.zipIdx_map_snd]
    exact List.pairwise_lt_range'
  exact List.pairwise_map.mp h

theorem nodup_messageKeys (e : Endian) (xs : List (String × Message)) (p : _ → Bool) :
    (((xs.zipIdx.filter p).map (messageEntry e)).map Prod.fst).Nodup := by
  rw [List.map_map]
  -- Names may be equal, numbers are not, and a key has its number in it.
  refine List.pairwise_map.mpr (((pairwise_zipIdx xs 0).filter p).imp fun {a b} hlt heq => ?_)
  have hid := id_of_messageKey heq
  omega

/-- The messages that come back, each under its number and its name. -/
theorem get?_messages_exported (c : Catalog) (key : String) (m : Message) :
    (exportedDocument c).messages.get? key = some m ↔
      ∃ i x, c.messages.entries[i]? = some x ∧ i + 1 < UInt32.size ∧
        key = messageKey (i + 1) (identifier (messageName x.1)) ∧
        m = messageImage (exportEndian c) x.2 := by
  rw [messages_exported, Dict.get?_ofList_eq_some_iff (nodup_messageKeys _ _ _), List.mem_map]
  constructor
  · rintro ⟨⟨x, i⟩, hx, heq⟩
    obtain ⟨hmem, hlt⟩ := List.mem_filter.mp hx
    obtain ⟨rfl, rfl⟩ := Prod.mk.inj heq
    exact ⟨i, x, List.mk_mem_zipIdx_iff_getElem?.mp hmem, of_decide_eq_true hlt, rfl, rfl⟩
  · rintro ⟨i, x, hx, hlt, rfl, rfl⟩
    exact ⟨(x, i), List.mem_filter.mpr
      ⟨List.mk_mem_zipIdx_iff_getElem?.mpr hx, decide_eq_true hlt⟩, rfl⟩

/-! ## Bits of a storage unit -/

/-- Members from one bit number to another, each behind the one before it. -/
def SpansTile : Nat → Nat → List BitMember → Prop
  | start, stop, [] => start = stop
  | start, stop, b :: bs => b.span.first = start ∧ SpansTile (b.span.last + 1) stop bs

theorem spansTile_cells {start stop : Nat} (hstop : stop ≤ 64) {cs : List Cell}
    (h : Tiles start stop cs) : SpansTile start stop (cs.map Cell.bit) := by
  induction cs generalizing start with
  | nil => exact h
  | cons c cs ih =>
    have hb := h.bounds c List.mem_cons_self
    obtain ⟨hstart, hpos, hcs⟩ := h
    obtain ⟨hfirst, hlast⟩ := c.span_bit hpos (by omega)
    refine ⟨hfirst.trans hstart, ?_⟩
    have hnext : c.bit.span.last + 1 = start + c.width := by omega
    rw [hnext]
    exact ih hcs

theorem span_ext {s t : Span} (h : s.first = t.first) (h' : s.last = t.last) : s = t := by
  cases s
  cases t
  cases h
  cases h'
  rfl

/-- A bit member that another one came back as. -/
structure SameBits (b b' : BitMember) : Prop where
  name : b'.name = identifier b.name
  span : b'.span = b.span
  description : b'.description = noteText b.description

/-- Padding that is named after its first bit. -/
def IsPadding (b : BitMember) : Prop := b.name = "_pad" ++ String.ofList (decimal b.span.first)

theorem sameBits_cellOf (b : BitMember) : SameBits b (cellOf b).bit := by
  have hle := b.span.first_le_last
  have hlast := b.span.last_lt
  have hsize : (cellOf b).start + (cellOf b).width = b.span.last + 1 := b.span.first_add_size
  have hstart : (cellOf b).start = b.span.first := rfl
  have hpos : 0 < (cellOf b).width := by omega
  have hb : (cellOf b).start + (cellOf b).width ≤ 64 := by omega
  obtain ⟨h, h'⟩ := (cellOf b).span_bit hpos hb
  refine ⟨(cellOf b).name_bit, span_ext h ?_, rfl⟩
  omega

/-- Which bit members of a field are exported: as many, in the order of their first bits, as lie
behind each other and below the width. -/
structure Selected (f : Datagram.Field) : Prop where
  subset : ∀ b ∈ exportedBits f, b ∈ f.members
  ascending : Ascending (8 * f.byteSize) 0 (exportedBits f)
  full : ∀ b ∈ f.members, b ∈ exportedBits f ∨ 8 * f.byteSize ≤ b.span.last ∨
    ∃ k ∈ exportedBits f, k.span.first ≤ b.span.first ∧ b.span.first ≤ k.span.last

theorem selected_exportedBits {f : Datagram.Field} (hi : f.type.isInteger = true) : Selected f where
  subset _ h := mem_exportedBits h
  ascending := ascending_exportedBits f
  full _ h := exported_or_covered hi h

/-- A storage unit that came back of a field with exported bits: the bits lie where they were, and
padding lies in all the gaps. -/
structure StorageOf (e : Endian) (f g : Datagram.Field) : Prop where
  type : g.type = f.type
  endian : g.endian = e
  tile : SpansTile 0 (8 * f.byteSize) g.members
  kept : ∀ b ∈ exportedBits f, ∃ b' ∈ g.members, SameBits b b'
  others : ∀ b' ∈ g.members, (∃ b ∈ exportedBits f, SameBits b b') ∨ IsPadding b'

theorem members_storageImage (e : Endian) {s : Scalar} (hs : s.isInteger = true) (cs : List Cell) :
    (storageImage e s cs).members = cs.map Cell.bit := by
  cases s with
  | int signed w => rfl
  | float => cases hs
  | double => cases hs

theorem type_storageImage (e : Endian) (s : Scalar) (cs : List Cell) :
    (storageImage e s cs).type = .scalar s ∧ (storageImage e s cs).endian = e := by
  cases s <;> exact ⟨rfl, rfl⟩

theorem fieldImage_storage (e : Endian) {f : Datagram.Field} (hr : f.isReference = false)
    {s : Scalar} (ht : f.type = .scalar s) (hb : exportedBits f ≠ []) :
    ∃ g, fieldImage e f = [g] ∧ StorageOf e f g := by
  have hs := isInteger_of_exportedBits hb ht
  have htiles := tiles_exportedBits hr ht
  have himage : fieldImage e f = [storageImage e s (cells s.bits 0 (exportedBits f))] := by
    obtain ⟨b, bs, hbits⟩ := List.exists_cons_of_ne_nil hb
    simp [fieldImage, hr, ht, hbits]
  refine ⟨_, himage, ?_⟩
  constructor
  · rw [(type_storageImage e s _).1, ht]
  · exact (type_storageImage e s _).2
  · rw [members_storageImage e hs, Field.bits_of_scalar hr ht]
    exact spansTile_cells s.bits_le htiles
  · intro b hmem
    rw [members_storageImage e hs]
    exact ⟨(cellOf b).bit, List.mem_map_of_mem (cellOf_mem_cells hmem), sameBits_cellOf b⟩
  · intro b' hmem
    rw [members_storageImage e hs] at hmem
    obtain ⟨c, hc, rfl⟩ := List.mem_map.mp hmem
    have hbounds := htiles.bounds c hc
    have hle := s.bits_le
    rcases mem_cells hc with ⟨b, hb, rfl⟩ | ⟨n, w, rfl⟩
    · exact Or.inl ⟨b, hb, sameBits_cellOf b⟩
    · right
      rw [IsPadding, Cell.name_bit, ((padCell n w).span_bit hbounds.1 (by omega)).1]
      rfl

/-! ## The catalogue -/

/-- What a catalogue has in it that came back of an export, and nothing else. The number of a message is
written and read as one of 32 bits: a message with a greater number comes back as a plain struct, among
the schemas. -/
structure ComesBack (c k : Catalog) : Prop where
  headers : k.components.map Components.headers =
    some (Dict.empty.insert commonHeader (headerImage (exportEndian c)))
  schemas : ∀ name, (k.components.bind fun cs => cs.schemas.get? name) =
    ((exportedComponents c).find? fun x => identifier x.1 = name).map fun x =>
      componentImage (exportEndian c) x.2
  messages : ∀ key m, k.messages.get? key = some m ↔
    ∃ i x, c.messages.entries[i]? = some x ∧ i + 1 < UInt32.size ∧
      key = messageKey (i + 1) (identifier (messageName x.1)) ∧
      m = messageImage (exportEndian c) x.2
  selected : ∀ f, f.type.isInteger = true → Selected f
  storage : ∀ f s, f.isReference = false → f.type = .scalar s → exportedBits f ≠ [] →
    ∃ g, fieldImage (exportEndian c) f = [g] ∧ StorageOf (exportEndian c) f g

/-- An export is parsed without an error, and the catalogue that comes back has the layouts of the
exported one, whatever its texts. -/
theorem comesBack_toIdl (c : Catalog) (source : String) :
    ∃ d, Document.parse {} c.toIdl = .ok d ∧ ComesBack c (d.toCatalog source) := by
  have hcatalog : (exportedDocument c).toCatalog source = roundTrip c source := rfl
  refine ⟨exportedDocument c, parse_toIdl c, ?_⟩
  constructor
  · rw [hcatalog, components_roundTrip]
    rfl
  · intro name
    rw [hcatalog, components_roundTrip, Option.bind_some, find?_schemas_exported]
  · exact get?_messages_exported c
  · exact fun f hi => selected_exportedBits hi
  · intro f s hr ht hb
    exact fieldImage_storage (exportEndian c) hr ht hb

end Datagram.Idl
