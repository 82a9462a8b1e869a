import Datagram.Catalog
import Datagram.Idl.Line

/-!
A catalogue as the source of a document. There is one header struct of a fixed form, a struct for
each component and one for each message with the payload of its request. Messages are numbered in the
order of their keys. What a struct cannot say is written as the bytes it takes, or left out.
-/

namespace Datagram.Idl

open Datagram.Text (collapse decimal)

/-- A name of letters, digits and underscores; an underscore stands for any other character. -/
def identifier (name : String) : String :=
  if name = "" then "unnamed"
  else String.ofList (name.toList.map fun c => if isWordChar c then c else '_')

/-- A key without the number that an imported message has in front of its name. -/
def messageName (key : String) : String :=
  match "Msg_".toList.isPrefixOf? key.toList with
  | none => key
  | some rest =>
    let digits := rest.takeWhile (· ≠ '_')
    let name := (rest.dropWhile (· ≠ '_')).drop 1
    if !digits.isEmpty && digits.all Char.isDigit && !name.isEmpty then String.ofList name
    else key

/-- A comment on one line, if there is anything to say. -/
def commentSuffix (text : String) : String :=
  let line := collapse text.toList
  if line.isEmpty then "" else " // " ++ String.ofList line

/-- The bit members, in ascending order, that lie behind those before them and below a width. -/
def membersFrom (start width : Nat) : List BitMember → List BitMember
  | [] => []
  | b :: bs =>
    if start ≤ b.span.first ∧ b.span.last < width then b :: membersFrom (b.span.last + 1) width bs
    else membersFrom start width bs

/-- The bit members of a field that a struct can hold, by their first bits. Of two that overlap the
second is left out. -/
def exportedBits (f : Datagram.Field) : List BitMember :=
  if f.type.isInteger then
    membersFrom 0 (8 * f.byteSize)
      (f.members.mergeSort fun a b => a.span.first ≤ b.span.first)
  else []

def bitLine (type name : String) (width : Nat) (comment : String) : String :=
  "    " ++ type ++ " " ++ name ++ " : " ++ String.ofList (decimal width) ++ ";" ++ comment

/-- Bit fields for the bits from one number to another that no member has. -/
def gapLines (type : String) (start stop : Nat) : List String :=
  if start < stop then
    [bitLine type ("_pad" ++ String.ofList (decimal start)) (stop - start) ""]
  else []

/-- Bit fields for all bits of a storage unit from a number on. -/
def bitLines (type : String) (width start : Nat) : List BitMember → List String
  | [] => gapLines type start width
  | b :: bs =>
    gapLines type start b.span.first
      ++ bitLine type (identifier b.name) b.span.size (commentSuffix b.description)
      :: bitLines type width (b.span.last + 1) bs

/-- The lines of a field; a reference has none. -/
def fieldLines (f : Datagram.Field) : List String :=
  let name := identifier f.name
  let type := typeName f.type
  let comment := commentSuffix f.description
  if f.isReference then []
  else if f.type.fixedSize?.isNone then
    (List.range f.byteSize).map fun i =>
      "    " ++ type ++ " " ++ name ++ "_" ++ String.ofList (decimal i) ++ ";"
        ++ if i = 0 then comment else ""
  else match exportedBits f with
    | [] => ["    " ++ type ++ " " ++ name ++ ";" ++ comment]
    | b :: bs => bitLines type (8 * f.byteSize) 0 (b :: bs)

def bodyLines (fields : List Datagram.Field) : List String :=
  "\x7b" :: fields.flatMap fieldLines ++ ["\x7d;"]

/-- A blank line, the heading of a struct and its body. -/
def structLines (name marker description : String) (fields : List Datagram.Field) : List String :=
  "" :: ("struct " ++ identifier name ++ marker ++ commentSuffix description) :: bodyLines fields

/-- The byte order of the first field that is no reference. -/
def firstEndian? (c : Catalog) : Option Endian :=
  let components := c.components.elim [] fun cs =>
    cs.schemas.values.flatMap Component.fields ++ cs.headers.values.flatten
  let requests := c.messages.values.flatMap fun m =>
    m.request.elim [] fun l => l.header ++ l.payload
  ((components ++ requests).find? (!·.isReference)).map Field.endian

def openingLines (bigEndian : Bool) : List String :=
  let marker := String.ofList idMarker
  ["//+PACK_SIZE=1",
   "//+MOST_BYTE=" ++ (if bigEndian then "true" else "false"),
   "",
   "struct MsgHeader " ++ marker,
   "\x7b",
   "    unsigned short MsgID; " ++ marker,
   "    unsigned short Length;",
   "\x7d;"]

def exportLines (c : Catalog) : List String :=
  let components := c.components.elim [] fun cs => cs.schemas.entries
  openingLines (firstEndian? c ≠ some .little)
    ++ components.flatMap (fun (name, component) =>
      structLines name "" component.description component.fields)
    ++ c.messages.entries.zipIdx.flatMap fun ((key, message), i) =>
      let marker := " //$(" ++ String.ofList (decimal (i + 1)) ++ ")$"
      structLines (messageName key) marker message.description
        (message.request.elim [] Layout.payload)

end Datagram.Idl

/-- The source of a document with what a document can hold of the catalogue. -/
def Datagram.Catalog.toIdl (c : Catalog) : String :=
  String.join ((Idl.exportLines c).map (· ++ "\n"))
