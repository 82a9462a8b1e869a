import Datagram.Catalog
import Datagram.Idl.Document

/-!
The catalogue of a document. Structs are flattened: a member of struct type stands for the members of
that struct, with the member's name in front of theirs, and an array for its elements. A run of bit
fields becomes one field with bit members.
-/

namespace Datagram.Idl

/-- The key of a message: its number with at least four digits, and its name. -/
def messageKey (id : Nat) (name : String) : String :=
  "Msg_" ++ String.ofList (Text.zeroPadded 4 (Text.decimal id)) ++ "_" ++ name

/-- The name of the header among the components. -/
def commonHeader : String := "CommonHeader"

/-- The name of an element, or of the member itself where there is only one. -/
def elementName (name : String) (i : Nat) : String :=
  name ++ "[" ++ String.ofList (Text.decimal i) ++ "]"

/-- Bit members from a bit number on, each behind the one before it. -/
def bitMembersFrom (start : Nat) : List Member → List BitMember
  | [] => []
  | m :: ms =>
    let width := max (m.bitWidth.getD 1) 1
    let bit :=
      if width = 1 then BitMember.single m.name (UInt32.ofNat start)
      else BitMember.ofRange m.name start (start + width - 1)
    { bit with description := m.comment } :: bitMembersFrom (start + width) ms

/-- The storage unit of a run of bit fields, named after all of them. -/
def storageField (endian : Endian) (pre : String) (scalar : Scalar) (run : List Member) :
    Datagram.Field :=
  let name := "_".intercalate (run.map Member.name)
  ((Field.new (pre ++ name) (.scalar scalar)).withEndian endian).withBits (bitMembersFrom 0 run)

/-- The fields of a member of primitive type. The first one has the comment. -/
def scalarFields (endian : Endian) (pre : String) (scalar : Scalar) (m : Member) :
    List Datagram.Field :=
  let field := fun name => (Field.new (pre ++ name) (.scalar scalar)).withEndian endian
  match m.arraySize with
  | none => [(field m.name).withDescription m.comment]
  | some n => (List.range n).map fun i =>
    let f := field (elementName m.name i)
    if i = 0 then f.withDescription m.comment else f

/-- What stands in front of the names of a nested struct's members. -/
def innerPrefix (pre : String) (m : Member) (i : Nat) : String :=
  pre ++ (if 1 < m.count then elementName m.name i else m.name) ++ "."

/-- The fields of a group, where the given structs may be expanded. A struct that is not there, or
that is being expanded already, has no fields. -/
def flatten (structs : List Struct) (endian : Endian) (pre : String) :
    Group → List Datagram.Field
  | .bits first rest =>
    match first.primitive.scalar? with
    | some scalar => [storageField endian pre scalar (first :: rest)]
    | none => []
  | .single m =>
    match m.primitive.scalar? with
    | some scalar => scalarFields endian pre scalar m
    | none =>
      match _h : findStruct? structs m.typeName with
      | none => []
      | some s =>
        (List.range m.count).flatMap fun i =>
          (groups s.members).flatMap fun g =>
            flatten (without structs m.typeName) endian (innerPrefix pre m i) g
termination_by structs.length
decreasing_by exact length_without_lt ‹_›

/-- The member that gets the message number: by its marker or by its name. -/
def Member.holdsMessageId (m : Member) : Bool :=
  m.isMessageId || m.name = "MsgID" || m.name = "msgId"

/-- The fields with a value for the first one. -/
def withFirstValue (value : String) : List Datagram.Field → List Datagram.Field
  | [] => []
  | f :: fs => f.withValue value :: fs

namespace Document

/-- The fields of a struct; inside it the struct itself has none. -/
def structFields (d : Document) (s : Struct) : List Datagram.Field :=
  (groups s.members).flatMap (flatten (without d.structs s.name) d.directives.endian "")

/-- The fields of the header of a message with the given number. -/
def headerFields (d : Document) (h : Struct) (idText : String) : List Datagram.Field :=
  (groups h.members).flatMap fun g =>
    let fields := flatten (without d.structs h.name) d.directives.endian "" g
    match g with
    | .single m => if m.holdsMessageId then withFirstValue idText fields else fields
    | .bits .. => fields

/-- Whether a group is a member that stands for the header. -/
def isHeaderGroup (h : Struct) : Group → Bool
  | .single m => m.isStruct && m.typeName = h.name
  | .bits .. => false

/-- The request of a message: members of the header's type make its header, all others its
payload. -/
def requestLayout (d : Document) (s : Struct) (idText : String) : Layout :=
  let payloadOf := fun gs => gs.flatMap (flatten d.structs d.directives.endian "")
  match d.header? with
  | none => ⟨[], payloadOf (groups s.members)⟩
  | some h =>
    let (headers, others) := (groups s.members).partition (isHeaderGroup h)
    ⟨headers.flatMap fun _ => d.headerFields h idText, payloadOf others⟩

/-- Of user structs with one name the first counts. -/
def schemas (d : Document) : Dict Component :=
  d.userStructs.foldl
    (fun dict s =>
      if dict.contains s.name then dict
      else dict.insert s.name { description := s.comment, fields := d.structFields s })
    ∅

def components (d : Document) : Components where
  schemas := d.schemas
  headers :=
    match d.header? with
    | some h => Dict.empty.insert commonHeader (d.structFields h)
    | none => ∅

/-- Of messages with one number and name the last counts. -/
def messages (d : Document) : Dict Message :=
  Dict.ofList <| d.messageStructs.map fun (s, id, idText) =>
    (messageKey id s.name,
      { Message.ofRequest (d.requestLayout s idText) with description := s.comment })

/-- The catalogue, titled with the name of the source. -/
def toCatalog (d : Document) (source : String) : Catalog :=
  let source := String.ofList (Text.trim source.toList)
  let name := fun default => if source = "" then default else source
  let bigEndian := if d.directives.bigEndian then "true" else "false"
  { version := currentVersion
    info :=
      { title := name "IDL Import"
        description := "Imported from " ++ name "IDL" ++ " (PACK_SIZE="
          ++ String.ofList (Text.decimal d.directives.packSize) ++ ", MOST_BYTE=" ++ bigEndian ++ ")"
        version := "1.0.0" }
    messages := d.messages
    components := if d.components.isEmpty then none else some d.components }

end Document

end Datagram.Idl
