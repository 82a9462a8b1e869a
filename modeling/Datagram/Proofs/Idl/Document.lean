import Datagram.Proofs.Idl.Export

/-! # The document of an exported catalogue

The source of a catalogue is parsed without an error. Its document has the header struct, a struct
for each component schema and one for each message, whatever texts the catalogue has in it. -/

namespace Datagram.Idl

open Datagram.Text

/-! ## Structs -/

/-- The role that a struct has by the number in its heading. -/
def markedRole : Option Nat → Role
  | none => .user
  | some id => if id < UInt32.size then .message id (String.ofList (decimal id)) else .user

theorem markedRole_of_lt {id : Nat} (h : id < UInt32.size) :
    markedRole (some id) = .message id (String.ofList (decimal id)) := if_pos h

theorem markedRole_of_not_lt {id : Nat} (h : ¬ id < UInt32.size) : markedRole (some id) = .user :=
  if_neg h

/-- The struct that fields are written as. -/
def exportedStruct (name : String) (id : Option Nat) (description : String)
    (fields : List Datagram.Field) : Struct :=
  { name := identifier name
    role := markedRole id
    members := fields.flatMap exportedMembers
    comment := String.ofList (collapse description.toList) }

theorem ofMarker_decimal (id : Option Nat) : Role.ofMarker (id.map decimal) = markedRole id := by
  cases id with
  | none => rfl
  | some n =>
    have htrim : trim (decimal n) = decimal n := trim_of_solid (solid_decimal n)
    have hne : (decimal n).isEmpty = false := by
      rw [List.isEmpty_eq_false_iff]
      exact (word_decimal n).nonempty
    have hmark : afterHexMark? (decimal n) = none :=
      (no_mark_of_integer? (integer?_of_ofDigits? (ofDigits?_decimal n))).1
    have hid : messageId? (decimal n) = if n < UInt32.size then some n else none := by
      simp only [messageId?, htrim, hmark, naturalBelow?, natural?_of_ofDigits? (ofDigits?_decimal n),
        Option.filter_some, decide_eq_true_eq]
    simp only [Option.map_some, Role.ofMarker, htrim, hne, Bool.false_eq_true, if_false, hid]
    by_cases hlt : n < UInt32.size
    · rw [if_pos hlt, markedRole_of_lt hlt]
    · rw [if_neg hlt, markedRole_of_not_lt hlt]

theorem declares_fields (fields : List Datagram.Field) :
    List.Forall₂ Declares ((fields.flatMap fieldLines).map String.toList)
      (fields.flatMap exportedMembers) := by
  induction fields with
  | nil => exact .nil
  | cons f fields ih =>
    rw [List.flatMap_cons, List.flatMap_cons, List.map_append]
    exact List.rel_append (declares_fieldLines f) ih

/-- The marker that is written for a number. -/
def markerText : Option Nat → String
  | none => ""
  | some id => " //$(" ++ String.ofList (decimal id) ++ ")$"

theorem structLines_eq (name : String) (id : Option Nat) (description : String)
    (fields : List Datagram.Field) :
    (structLines name (markerText id) description fields).map String.toList =
      [] :: headingLine (identifier name) id description ::
        bodyBlock ((fields.flatMap fieldLines).map String.toList) := by
  have hheading : ("struct " ++ identifier name ++ markerText id ++
      commentSuffix description).toList = headingLine (identifier name) id description := by
    cases id with
    | none => simp [headingLine, markerText, markerCode, keyword, commentSuffix_toList]
    | some n => simp [headingLine, markerText, markerCode, keyword, commentSuffix_toList]
  rw [structLines, List.map_cons, List.map_cons, hheading]
  simp [bodyLines, bodyBlock]

theorem unbroken_of_declares {lines : List Line} {members : List Member}
    (h : List.Forall₂ Declares lines members) : ∀ l ∈ lines, Unbroken l := by
  induction h with
  | nil => simp
  | cons hl _ ih =>
    intro l hmem
    rcases List.mem_cons.mp hmem with rfl | hmem
    · exact hl.unbroken
    · exact ih l hmem

/-- A struct's lines hold the struct. -/
theorem writes_structLines (name : String) (id : Option Nat) (description : String)
    (fields : List Datagram.Field) :
    Writes ((structLines name (markerText id) description fields).map String.toList)
      (exportedStruct name id description fields) := by
  have hhead := heads_headingLine (word_identifier name) id description
  have hbody := declares_fields fields
  rw [structLines_eq]
  constructor
  · intro l hl
    have hbrace : Unbroken "\x7b".toList := ⟨by decide, by decide⟩
    have hclose : Unbroken "\x7d;".toList := ⟨by decide, by decide⟩
    simp only [bodyBlock, List.mem_cons, List.mem_append, List.not_mem_nil, or_false] at hl
    rcases hl with rfl | rfl | (rfl | hl) | rfl
    · exact ⟨by simp, by simp⟩
    · exact hhead.unbroken
    · exact hbrace
    · exact unbroken_of_declares hbody l hl
    · exact hclose
  -- The lines behind the body are arbitrary, as a struct ends with the brace that closes it.
  · intro rest
    have hstruct : Struct.ofHeading ⟨(identifier name).toList, id.map decimal,
        headingTrailer id description⟩ (fields.flatMap exportedMembers) =
        exportedStruct name id description fields := by
      rw [Struct.ofHeading, ofMarker_decimal, comment_heading, exportedStruct, String.ofList_toList]
    rw [List.cons_append, List.cons_append, readStructs_blank, readStructs_block hhead hbody,
      hstruct]

/-! ## The header -/

/-- The member of the header with the message number. -/
def idMember : Member :=
  { writtenMember (.int false .w16) "MsgID" none "" with isMessageId := true }

/-- The struct of the header that every export begins with. -/
def headerStruct : Struct :=
  { name := "MsgHeader"
    role := .header
    members := [idMember, writtenMember (.int false .w16) "Length" none ""]
    comment := "" }

theorem readDirectives_opening (bigEndian : Bool) (rest : List Line) :
    readDirectives {} ((openingLines bigEndian).map String.toList ++ rest) =
      (⟨1, bigEndian⟩, ((openingLines bigEndian).drop 3).map String.toList ++ rest) := by
  cases bigEndian <;> rfl

theorem heads_header : Heads "struct MsgHeader //$()$".toList ⟨"MsgHeader".toList, some [], []⟩ where
  unbroken := ⟨by decide, by decide⟩
  declares := by decide
  unopened := by decide

theorem declares_idMember :
    Declares "    unsigned short MsgID; //$()$".toList idMember where
  unbroken := ⟨by decide +kernel, by decide +kernel⟩
  plain := by decide +kernel
  opened := by decide +kernel
  members := by decide +kernel

theorem readStructs_opening (bigEndian : Bool) (rest : List Line) :
    readStructs .standard (((openingLines bigEndian).drop 3).map String.toList ++ rest) =
      headerStruct :: readStructs .standard rest := by
  have hlength : memberLine (.int false .w16) "Length" none "" = "    unsigned short Length;" := rfl
  have hbody : List.Forall₂ Declares
      ["    unsigned short MsgID; //$()$".toList, "    unsigned short Length;".toList]
      headerStruct.members := by
    refine .cons declares_idMember (.cons ?_ .nil)
    rw [← hlength]
    exact declares_memberLine (.of_all (by decide) (by decide)) (fits_none _) ""
  have h := readStructs_block heads_header hbody rest
  have hstruct : Struct.ofHeading ⟨"MsgHeader".toList, some [], []⟩ headerStruct.members =
      headerStruct := rfl
  rw [hstruct] at h
  exact h

/-! ## The document -/

/-- The component schemas of a catalogue, in the order of their keys. -/
def schemaEntries (c : Catalog) : List (String × Component) :=
  c.components.elim [] fun cs => cs.schemas.entries

/-- The fields of a message that are exported. -/
def payloadOf (m : Message) : List Datagram.Field := m.request.elim [] Layout.payload

def schemaStruct (e : String × Component) : Struct :=
  exportedStruct e.1 none e.2.description e.2.fields

/-- The struct of the message with an index; its number is one more. -/
def messageStruct (e : (String × Message) × Nat) : Struct :=
  exportedStruct (messageName e.1.1) (some (e.2 + 1)) e.1.2.description (payloadOf e.1.2)

def exportedStructs (c : Catalog) : List Struct :=
  (schemaEntries c).map schemaStruct ++ c.messages.entries.zipIdx.map messageStruct

def exportedDocument (c : Catalog) : Document where
  directives := ⟨1, decide (firstEndian? c ≠ some .little)⟩
  structs := headerStruct :: exportedStructs c

/-- The lines of a component schema. -/
def schemaLines (e : String × Component) : List Line :=
  (structLines e.1 (markerText none) e.2.description e.2.fields).map String.toList

/-- The lines of a message. -/
def messageLines (e : (String × Message) × Nat) : List Line :=
  (structLines (messageName e.1.1) (markerText (some (e.2 + 1))) e.1.2.description
    (payloadOf e.1.2)).map String.toList

theorem exportLines_eq (c : Catalog) : (exportLines c).map String.toList =
    (openingLines (decide (firstEndian? c ≠ some .little))).map String.toList ++
      ((schemaEntries c).flatMap schemaLines ++ c.messages.entries.zipIdx.flatMap messageLines) := by
  rw [exportLines, List.map_append, List.map_append, List.map_flatMap, List.map_flatMap,
    List.append_assoc]
  rfl

theorem writes_schemaLines (e : String × Component) : Writes (schemaLines e) (schemaStruct e) :=
  writes_structLines e.1 none e.2.description e.2.fields

theorem writes_messageLines (e : (String × Message) × Nat) :
    Writes (messageLines e) (messageStruct e) :=
  writes_structLines (messageName e.1.1) (some (e.2 + 1)) e.1.2.description (payloadOf e.1.2)

theorem unbroken_exportLines (c : Catalog) : ∀ l ∈ (exportLines c).map String.toList, Unbroken l := by
  have hopening : ∀ b, ∀ l ∈ (openingLines b).map String.toList, '\n' ∉ l ∧ '\r' ∉ l := by
    intro b
    cases b <;> decide +kernel
  intro l hl
  rw [exportLines_eq] at hl
  rcases List.mem_append.mp hl with hl | hl
  · exact hopening _ l hl
  · rcases List.mem_append.mp hl with hl | hl
    · obtain ⟨e, _, hl⟩ := List.mem_flatMap.mp hl
      exact (writes_schemaLines e).unbroken l hl
    · obtain ⟨e, _, hl⟩ := List.mem_flatMap.mp hl
      exact (writes_messageLines e).unbroken l hl

theorem toIdl_toList (c : Catalog) :
    c.toIdl.toList = ((exportLines c).map String.toList).flatMap (· ++ ['\n']) := by
  simp [Catalog.toIdl, String.toList_join, List.flatMap_map]

theorem lines_toIdl (c : Catalog) :
    Text.lines c.toIdl.toList = (exportLines c).map String.toList := by
  rw [toIdl_toList, lines_of_unbroken (unbroken_exportLines c)]

theorem not_blank_toIdl (c : Catalog) : c.toIdl.toList.all isBlank = false := by
  rw [toIdl_toList, exportLines_eq]
  cases decide (firstEndian? c ≠ some .little) <;> rfl

theorem readStructs_exported (c : Catalog) :
    readStructs .standard ((schemaEntries c).flatMap schemaLines ++
      c.messages.entries.zipIdx.flatMap messageLines) = exportedStructs c := by
  have hnil : readStructs .standard [] = [] := by rw [readStructs]
  have hmessages : readStructs .standard (c.messages.entries.zipIdx.flatMap messageLines ++ []) =
      c.messages.entries.zipIdx.map messageStruct ++ readStructs .standard [] :=
    readStructs_writes (fun e _ => writes_messageLines e) []
  rw [List.append_nil, hnil, List.append_nil] at hmessages
  rw [readStructs_writes (fun e _ => writes_schemaLines e), hmessages, exportedStructs]

theorem role_ne_header {c : Catalog} {s : Struct} (h : s ∈ exportedStructs c) :
    s.role ≠ .header := by
  have hmarked : ∀ id, markedRole id ≠ .header := by
    intro id
    cases id with
    | none => decide
    | some n =>
      by_cases hlt : n < UInt32.size
      · rw [markedRole_of_lt hlt]
        exact nofun
      · rw [markedRole_of_not_lt hlt]
        exact nofun
  rcases List.mem_append.mp h with h | h
  · obtain ⟨e, _, rfl⟩ := List.mem_map.mp h
    exact hmarked none
  · obtain ⟨e, _, rfl⟩ := List.mem_map.mp h
    exact hmarked (some (e.2 + 1))

theorem keepFirstHeader_exported (c : Catalog) :
    keepFirstHeader (headerStruct :: exportedStructs c) = headerStruct :: exportedStructs c := by
  have hrole : headerStruct.role = .header := rfl
  have hmap : (exportedStructs c).map
      (fun t => if t.role = .header then { t with role := .user } else t) =
      (exportedStructs c).map id :=
    List.map_congr_left fun s hs => if_neg (role_ne_header hs)
  rw [keepFirstHeader, if_pos hrole, hmap, List.map_id]

/-- The source of a catalogue is a document, with the structs that were written. -/
theorem parse_toIdl (c : Catalog) : Document.parse {} c.toIdl = .ok (exportedDocument c) := by
  have hdirectives := readDirectives_opening (decide (firstEndian? c ≠ some .little))
    ((schemaEntries c).flatMap schemaLines ++ c.messages.entries.zipIdx.flatMap messageLines)
  unfold Document.parse
  simp only [not_blank_toIdl, Bool.false_eq_true, if_false, lines_toIdl, exportLines_eq,
    hdirectives, readStructs_opening, readStructs_exported, keepFirstHeader_exported]
  rfl

end Datagram.Idl
