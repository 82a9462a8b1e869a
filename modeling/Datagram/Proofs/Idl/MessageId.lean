import Datagram.Proofs.Codec.RoundTrip
import Datagram.Proofs.Idl.Lookup
import Datagram.Proofs.Idl.Packing

/-! # The number of a message on the wire

The text in the marker of a message is read for its number, and a second time when its header is
written. Both readings give one number where the field has room for it, so the field of the header
that is marked or named for the number has it. A bit field does not get the text, and the storage
units of a header are written as zeros. -/

namespace Datagram.Idl

open Datagram.Text

/-! ## One text, read twice -/

/-- The number that a marker denotes is written for the text of the marker wherever it fits. -/
theorem scalarPattern?_of_messageId? {text : List Char} {id : Nat} (h : messageId? text = some id)
    {signed : Bool} {w : Width} (hid : Literal.InRange signed w id) :
    Literal.scalarPattern? (.int signed w) .decimal text = some (UInt64.ofNat id) := by
  rw [Literal.scalarPattern?_int]
  rw [messageId?] at h
  -- Both readings look for the mark in the trimmed text, so they take it in one base.
  cases hmark : afterHexMark? (trim text) with
  | some digits =>
    rw [hmark] at h
    have hnatural : natural? 16 digits = some id := (Option.filter_eq_some_iff.mp h).1
    exact Literal.integerPattern?_of_hexMark hmark hnatural hid
  | none =>
    rw [hmark] at h
    have hnatural : natural? 10 (trim text) = some id := (Option.filter_eq_some_iff.mp h).1
    exact Literal.integerPattern?_of_inRange (integer?_of_natural? hnatural) hid

/-! ## The fields of a header -/

theorem Member.Sound.bitWidth_of_isStruct {m : Member} (hm : m.Sound) (h : m.isStruct = true) :
    m.bitWidth = none := by
  cases hw : m.bitWidth with
  | none => rfl
  | some w =>
    have hinteger := (hm w hw).1
    rw [of_decide_eq_true h] at hinteger
    cases hinteger

/-- The fields that a group has in the header of a message. -/
def Document.headerGroup (d : Document) (h : Struct) (idText : String) (g : Group) :
    List Datagram.Field :=
  let fields := flatten (without d.structs h.name) d.directives.endian "" g
  match g with
  | .single m => if m.holdsMessageId then withFirstValue idText fields else fields
  | .bits .. => fields

variable {d : Document} {h s : Struct}

theorem headerFields_eq_flatMap (d : Document) (h : Struct) (idText : String) :
    d.headerFields h idText = (groups h.members).flatMap (d.headerGroup h idText) := rfl

/-- The field with the text of the marker. -/
def idField (e : Endian) (scalar : Scalar) (m : Member) (idText : String) : Datagram.Field :=
  (((Field.new m.name (.scalar scalar)).withEndian e).withDescription m.comment).withValue idText

theorem headerGroup_idField {f : Member} (hid : f.holdsMessageId = true)
    (harray : f.arraySize = none) {scalar : Scalar} (htype : f.primitive.scalar? = some scalar)
    (idText : String) :
    d.headerGroup h idText (.single f) = [idField d.directives.endian scalar f idText] := by
  rw [Document.headerGroup, flatten]
  simp only [htype, hid, if_true, scalarFields, harray, String.empty_append]
  rfl

theorem headerGroup_storageField {first : Member} {rest : List Member} {scalar : Scalar}
    (htype : first.primitive.scalar? = some scalar) (idText : String) :
    d.headerGroup h idText (.bits first rest) =
      [storageField d.directives.endian "" scalar (first :: rest)] := by
  rw [Document.headerGroup, flatten]
  simp only [htype]

theorem header_requestLayout (hh : d.header? = some h) (s : Struct) (idText : String) :
    (d.requestLayout s idText).header =
      ((groups s.members).filter (Document.isHeaderGroup h)).flatMap
        fun _ => d.headerFields h idText := by
  rw [Document.requestLayout, hh]
  dsimp only
  rw [List.partition_eq_filter_filter]

/-- The fields of a header group lie behind those of the headers and groups in front of it. -/
theorem header_requestLayout_split (hh : d.header? = some h) {before after : List Member} {m : Member}
    (hm : s.members = before ++ m :: after) (hbit : m.bitWidth = none)
    (hheader : Document.isHeaderGroup h (.single m) = true) {gs gs' : List Group} {g : Group}
    (hg : groups h.members = gs ++ g :: gs') (idText : String) :
    ∃ back, (d.requestLayout s idText).header =
      ((d.requestLayout { s with members := before } idText).header ++
        gs.flatMap (d.headerGroup h idText)) ++ (d.headerGroup h idText g ++ back) := by
  have hgroups : groups s.members = groups before ++ .single m :: groups after := by
    rw [hm]
    exact groupsAfter_append_single hbit none before after
  have hfields : d.headerFields h idText = gs.flatMap (d.headerGroup h idText) ++
      (d.headerGroup h idText g ++ gs'.flatMap (d.headerGroup h idText)) := by
    rw [headerFields_eq_flatMap, hg, List.flatMap_append, List.flatMap_cons]
  refine ⟨gs'.flatMap (d.headerGroup h idText) ++
    ((groups after).filter (Document.isHeaderGroup h)).flatMap fun _ => d.headerFields h idText, ?_⟩
  rw [header_requestLayout hh, header_requestLayout hh, hgroups, List.filter_append,
    List.filter_cons_of_pos hheader, List.flatMap_append, List.flatMap_cons, hfields]
  simp only [List.append_assoc]

/-! ## Requests -/

section Request

variable {options : Options} {text : String} {id : Nat} {idText : String}
  {before after : List Member} {m : Member}

/-- A group of the header that has one field is read behind the entries of the fields in front. -/
theorem decode_header_group (hd : Document.parse options text = .ok d) (hh : d.header? = some h)
    (hs : LastDeclaration d s id idText) (source : String)
    (hm : s.members = before ++ m :: after) (hstruct : m.isStruct = true)
    (hname : m.typeName = h.name) {gs gs' : List Group} {g : Group}
    (hg : groups h.members = gs ++ g :: gs') {f : Datagram.Field}
    (hf : d.headerGroup h idText g = [f]) (hr : f.isReference = false) (hpos : 0 < f.byteSize)
    {values : Values} {entries : List Entry}
    (hentries : Slot.decode ⟨Part.header.key f.name, f⟩
      (Slot.encode ⟨Part.header.key f.name, f⟩ values).bytes = entries) :
    ∃ message layout rest, (d.toCatalog source).message? (messageKey id s.name) = some message ∧
      message.request = some layout ∧
      layout.decode (layout.encode values) = Layout.entriesOf .header
          ((d.requestLayout { s with members := before } idText).header ++
            gs.flatMap (d.headerGroup h idText)) values ++ (entries ++ rest) := by
  have hsound : m.Sound := by
    apply sound_of_parse hd hs.mem
    rw [hm]
    exact List.mem_append_right before List.mem_cons_self
  have hheader : Document.isHeaderGroup h (.single m) = true := by
    simp [Document.isHeaderGroup, hstruct, hname]
  obtain ⟨back, hback⟩ := header_requestLayout_split hh hm
    (hsound.bitWidth_of_isStruct hstruct) hheader hg idText
  rw [hf] at hback
  obtain ⟨rest, hrest⟩ := Layout.decode_encode_header hback hr hpos values
  rw [hentries] at hrest
  exact ⟨_, d.requestLayout s idText, rest, hs.get?_messages, rfl, hrest⟩

/-- In every request with a header an integer field that is marked or named for the number of the
message is read as this number, if it is one of the field's type, whatever text gave it. The entry
lies behind those of the headers and fields in front of it. -/
theorem messageId_read (hd : Document.parse options text = .ok d) (hh : d.header? = some h)
    (hs : LastDeclaration d s id idText) (source : String)
    (hm : s.members = before ++ m :: after) (hstruct : m.isStruct = true)
    (hname : m.typeName = h.name) {front back : List Member} {f : Member}
    (hf : h.members = front ++ f :: back) (hid : f.holdsMessageId = true)
    (harray : f.arraySize = none) (hbit : f.bitWidth = none) {signed : Bool} {w : Width}
    (htype : f.primitive.scalar? = some (.int signed w)) (hrange : Literal.InRange signed w id) :
    ∃ message layout rest, (d.toCatalog source).message? (messageKey id s.name) = some message ∧
      message.request = some layout ∧
      layout.decode (layout.encode ∅) = Layout.entriesOf .header
          ((d.requestLayout { s with members := before } idText).header ++
            d.headerFields { h with members := front } idText) ∅ ++
        ⟨Part.header.key f.name, numberReading d.directives.endian signed w id⟩ :: rest ∧
      (numberReading d.directives.endian signed w id).value.bind Value.integer? = some (id : Int) := by
  have hgroups : groups h.members = groups front ++ .single f :: groups back := by
    rw [hf]
    exact groupsAfter_append_single hbit none front back
  let field : Datagram.Field := idField d.directives.endian (.int signed w) f idText
  let slot : Slot := ⟨Part.header.key f.name, field⟩
  have hliteral : Literal.scalarPattern? (.int signed w) .decimal (slot.literal ∅).toList =
      some (UInt64.ofNat id) :=
    scalarPattern?_of_messageId? (messageId?_of_parse hd hs.mem hs.role) hrange
  have hentry : slot.decode (slot.encode ∅).bytes =
      [⟨slot.key, numberReading d.directives.endian signed w id⟩] :=
    Slot.decode_encode_number rfl rfl rfl rfl hrange hliteral
  have hpos : 0 < field.byteSize := Scalar.bytes_pos (.int signed w)
  obtain ⟨message, layout, rest, hfound, hrequest, hdecode⟩ := decode_header_group hd hh hs source
    hm hstruct hname hgroups (headerGroup_idField hid harray htype idText) rfl hpos hentry
  exact ⟨message, layout, rest, hfound, hrequest, hdecode, integer?_ofNat hrange⟩

/-- A number in hexadecimal with a sign, in a signed field of the second of two headers. The message
is declared once before under its number and name. -/
theorem messageId_read_hex :
    let text := "struct M //$(10)$\n\x7b \x7d\nstruct H //$()$\n\x7b char n; int k; //$()$\n\x7d\nstruct M //$( 0x+0A)$\n\x7b H g; H h; \x7d"
    let options : Options := { directives := ⟨1, false⟩ }
    ∃ d message layout front rest, Document.parse options text = .ok d ∧
      (d.toCatalog "").message? "Msg_0010_M" = some message ∧ message.request = some layout ∧
      layout.decode (layout.encode ∅) =
        front ++ ⟨"header.k", numberReading .little true .w32 10⟩ :: rest ∧ front.length = 3 ∧
      (numberReading .little true .w32 10).value.bind Value.integer? = some 10 ∧
      (numberReading .little true .w32 10).raw = [10, 0, 0, 0] := by
  intro text options
  let n : Member := ⟨"n", "char", .int true .w8, none, none, false, ""⟩
  let k : Member := ⟨"k", "int", .int true .w32, none, none, true, ""⟩
  let g : Member := ⟨"g", "H", .struct, none, none, false, ""⟩
  let h : Member := ⟨"h", "H", .struct, none, none, false, ""⟩
  let header : Struct := ⟨"H", .header, [n, k], ""⟩
  let first : Struct := ⟨"M", .message 10 "10", [], ""⟩
  let last : Struct := ⟨"M", .message 10 "0x+0A", [g, h], ""⟩
  let d : Document := ⟨⟨1, false⟩, [first, header, last]⟩
  have hblank : text.toList.all isBlank = false := by decide +kernel
  have hdocument : documentOf options text = d := by decide +kernel
  have hparse : Document.parse options text = .ok d :=
    hdocument ▸ parse_eq_documentOf options hblank
  have hlast : LastDeclaration d last 10 "0x+0A" := ⟨rfl, [first, header], [], rfl, by simp⟩
  have hrange : Literal.InRange true .w32 ((10 : Nat) : Int) := ⟨by decide, by decide⟩
  have hkey : messageKey 10 last.name = "Msg_0010_M" := by decide +kernel
  have hentry : Part.header.key k.name = "header.k" := by decide +kernel
  have hmembers : last.members = [g] ++ h :: [] := rfl
  have hfields : header.members = [n] ++ k :: [] := rfl
  obtain ⟨message, layout, rest, hfound, hrequest, hdecode, hvalue⟩ :=
    messageId_read hparse rfl hlast "" hmembers rfl rfl hfields rfl rfl rfl rfl hrange
  rw [hkey] at hfound
  rw [hentry] at hdecode
  exact ⟨d, message, layout, _, rest, hparse, hfound, hrequest, hdecode, by decide +kernel, hvalue,
    by decide +kernel⟩

/-- A bit field of the header is read as zero in every request, whether it is marked or named for the
number of the message or not: only plain members get the text of the marker. -/
theorem header_bits_read_zero (hd : Document.parse options text = .ok d) (hh : d.header? = some h)
    (hs : LastDeclaration d s id idText) (source : String)
    (hm : s.members = before ++ m :: after) (hstruct : m.isStruct = true)
    (hname : m.typeName = h.name) {f : Member} (hf : f ∈ h.members) {width : Nat}
    (hbit : f.bitWidth = some width) :
    (∃ first rest, .bits first rest ∈ groups h.members ∧ f ∈ first :: rest) ∧
    ∀ gs first rest gs', groups h.members = gs ++ .bits first rest :: gs' →
      ∃ message layout key bytes reading rest',
        (d.toCatalog source).message? (messageKey id s.name) = some message ∧
        message.request = some layout ∧
        key = Part.header.key ("_".intercalate ((first :: rest).map Member.name)) ∧
        layout.decode (layout.encode ∅) = Layout.entriesOf .header
            ((d.requestLayout { s with members := before } idText).header ++
              gs.flatMap (d.headerGroup h idText)) ∅ ++
          ((⟨key, reading⟩ ::
            (first :: rest).map fun k => ⟨key ++ "." ++ k.name, shownNumber bytes 0⟩) ++ rest') := by
  refine ⟨unit_of_mem hf hbit, ?_⟩
  intro gs first rest gs' hg
  have hshares : Shares first.primitive (first :: rest) := by
    refine shares_of_mem_groups (sound_of_parse hd (List.mem_of_find?_eq_some hh)) ?_
    rw [hg]
    exact List.mem_append_right gs List.mem_cons_self
  obtain ⟨signed, w, hscalar, hfit⟩ := hshares.scalar
  let field := storageField d.directives.endian "" (.int signed w) (first :: rest)
  let key := Part.header.key field.name
  let value : String → Nat := fun _ => 0
  have hnone : (∅ : Values).get? key = none := rfl
  have hzero : ∀ k ∈ first :: rest, value k.name < 2 ^ 64 ∧
      Gives ∅ (key ++ "." ++ k.name) (value k.name) := fun k _ => ⟨by decide, rfl⟩
  obtain ⟨bytes, reading, hencode, _, hdecode⟩ :=
    storage_packs d.directives.endian "" hshares.placed hfit hnone hzero
  have hentries : Slot.decode ⟨key, field⟩ (Slot.encode ⟨key, field⟩ ∅).bytes = ⟨key, reading⟩ ::
      (first :: rest).map fun k => ⟨key ++ "." ++ k.name, shownNumber bytes 0⟩ := by
    rw [hencode, Encoding.bytes, hdecode]
    simp only [value, Nat.zero_mod]
  have hpos : 0 < field.byteSize := Scalar.bytes_pos (.int signed w)
  obtain ⟨message, layout, rest', hfound, hrequest, hall⟩ := decode_header_group hd hh hs source
    hm hstruct hname hg (headerGroup_storageField hscalar idText) rfl hpos hentries
  refine ⟨message, layout, key, bytes, reading, rest', hfound, hrequest, ?_, hall⟩
  exact congrArg Part.header.key String.empty_append

/-- The bits behind a plain field, one of them marked. -/
theorem header_bits_read_zero_marked :
    let text := "struct H //$()$\n\x7b char n; byte k : 3; //$()$\nbyte msgId : 5; \x7d\nstruct M //$(5)$\n\x7b H h; \x7d"
    ∃ d message layout front bytes reading rest, Document.parse {} text = .ok d ∧
      (d.toCatalog "").message? "Msg_0005_M" = some message ∧ message.request = some layout ∧
      layout.decode (layout.encode ∅) = front ++ ([⟨"header.k_msgId", reading⟩,
        ⟨"header.k_msgId.k", shownNumber bytes 0⟩,
        ⟨"header.k_msgId.msgId", shownNumber bytes 0⟩] ++ rest) ∧ front.length = 1 := by
  intro text
  let n : Member := ⟨"n", "char", .int true .w8, none, none, false, ""⟩
  let k : Member := ⟨"k", "byte", .int false .w8, none, some 3, true, ""⟩
  let msgId : Member := ⟨"msgId", "byte", .int false .w8, none, some 5, false, ""⟩
  let h : Member := ⟨"h", "H", .struct, none, none, false, ""⟩
  let header : Struct := ⟨"H", .header, [n, k, msgId], ""⟩
  let message : Struct := ⟨"M", .message 5 "5", [h], ""⟩
  let d : Document := ⟨{}, [header, message]⟩
  have hblank : text.toList.all isBlank = false := by decide +kernel
  have hdocument : documentOf {} text = d := by decide +kernel
  have hparse : Document.parse {} text = .ok d := hdocument ▸ parse_eq_documentOf {} hblank
  have hlast : LastDeclaration d message 5 "5" := ⟨rfl, [header], [], rfl, by simp⟩
  have hmessage : messageKey 5 message.name = "Msg_0005_M" := by decide +kernel
  have hgroups : groups header.members = [.single n] ++ .bits k [msgId] :: [] := by decide
  have hunit : Part.header.key ("_".intercalate ([k, msgId].map Member.name)) = "header.k_msgId" := by
    decide +kernel
  have hkeys : "header.k_msgId" ++ "." ++ k.name = "header.k_msgId.k" ∧
      "header.k_msgId" ++ "." ++ msgId.name = "header.k_msgId.msgId" := by decide +kernel
  have hmem : k ∈ header.members := by decide
  have hmembers : message.members = [] ++ h :: [] := rfl
  obtain ⟨_, hunits⟩ :=
    header_bits_read_zero hparse rfl hlast "" hmembers rfl rfl hmem rfl
  obtain ⟨found, layout, key, bytes, reading, rest, hfound, hrequest, hkey, hdecode⟩ :=
    hunits _ k [msgId] [] hgroups
  rw [hmessage] at hfound
  rw [hkey, hunit, List.map_cons, List.map_cons, hkeys.1, hkeys.2] at hdecode
  exact ⟨d, found, layout, _, bytes, reading, rest, hparse, hfound, hrequest, hdecode,
    by decide +kernel⟩

/-- The number of a message has room in the marked bit field of its header and is not read there. -/
theorem messageId_not_read_at_bits :
    let text := "struct H //$()$\n\x7b unsigned char id : 8; //$()$\n\x7d;\nstruct M //$(5)$\n\x7b H h; \x7d;\n"
    let id : Member := ⟨"id", "unsigned char", .int false .w8, none, some 8, true, ""⟩
    let header : Struct := ⟨"H", .header, [id], ""⟩
    let message : Struct :=
      ⟨"M", .message 5 "5", [⟨"h", "H", .struct, none, none, false, ""⟩], ""⟩
    ∃ d m layout reading, Document.parse {} text = .ok d ∧ d.structs = [header, message] ∧
      d.header? = some header ∧ id.holdsMessageId = true ∧ 5 < 2 ^ 8 ∧
      (d.toCatalog "").message? "Msg_0005_M" = some m ∧ m.request = some layout ∧
      layout.decode (layout.encode ∅) =
        [⟨"header.id", reading⟩, ⟨"header.id.id", shownNumber [0] 0⟩] ∧
      (shownNumber [0] 0).value.bind Value.integer? = some 0 := by
  intro text id header message
  let d : Document := ⟨{}, [header, message]⟩
  have hblank : text.toList.all isBlank = false := by decide +kernel
  have hdocument : documentOf {} text = d := by decide +kernel
  have hlast : LastDeclaration d message 5 "5" := ⟨rfl, [header], [], rfl, by simp⟩
  have hkey : messageKey 5 message.name = "Msg_0005_M" := by decide +kernel
  have hfound := hlast.get?_messages
  rw [hkey] at hfound
  refine ⟨d, _, d.requestLayout message "5", numberReading .big false .w8 0,
    hdocument ▸ parse_eq_documentOf {} hblank, rfl, rfl, rfl, by decide, hfound, rfl, ?_, ?_⟩
  · decide +kernel
  · decide

end Request

end Datagram.Idl
