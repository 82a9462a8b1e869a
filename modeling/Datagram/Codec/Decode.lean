import Datagram.Codec.Value
import Datagram.Layout

/-!
Reading a message. Bytes that are no value of a field's type are shown in hexadecimal. A field that the
bytes do not cover has an entry of its own if some of its bytes are there, and the reading ends at the
first field that begins behind the bytes.
-/

namespace Datagram

/-- How the text of a reading came about. -/
inductive Status where
  | ok
  /-- Fewer bytes were left than the field takes. -/
  | truncated
  /-- The bytes are no value of the field's type. -/
  | fallback (reason : String)
  deriving DecidableEq, Repr

/-- What is read at one field, or at one bit member of it. -/
structure Reading where
  raw : List UInt8
  display : String
  value : Option Value
  status : Status
  deriving DecidableEq

def Reading.notAvailable : Reading :=
  { raw := [], display := "N/A", value := none, status := .truncated }

structure Entry where
  key : String
  reading : Reading
  deriving DecidableEq

/-- The number of given bytes as a value, if it is the number that the type has. -/
def Scalar.read (s : Scalar) (e : Endian) (raw : List UInt8) : Except String Value :=
  let refusal := fun reason =>
    toString raw.length ++ " bytes as " ++ s.name ++ ": " ++ reason
  if raw.length < s.bytes then .error (refusal "failed to fill whole buffer")
  else if s.bytes < raw.length then .error (refusal "trailing bytes")
  else .ok (.scalar s (BitVec.ofNat _ (Octets.read e raw)))

namespace Field

/-- The value that bytes are for a field, or why they are none. -/
def interpret (f : Field) (raw : List UInt8) : Except String Value :=
  match f.type with
  | .string =>
    if raw.all (· < 128) then
      let codes := (raw.reverse.dropWhile (· = 0)).reverse
      .ok (.text (String.ofList (codes.map fun b => Char.ofNat b.toNat)))
    else .error "non-ASCII string"
  | .bytes => .ok (.bytes raw)
  | .padding => .ok (.bytes raw)
  | .scalar s => s.read f.endian raw

/-- The text of a value in the field's radix; only patterns have another radix than ten. -/
def radixText (f : Field) (v : Value) : String :=
  match f.radix, v.pattern? with
  | .hex, some p => hexText p f.byteSize
  | .binary, some p => binaryText p f.byteSize
  | _, _ => v.display

def decode (f : Field) (raw : List UInt8) : Reading :=
  match f.interpret raw with
  | .ok v =>
    { raw
      display := labelled (f.radixText v) v.display f.labels
      value := some v
      status := .ok }
  | .error reason =>
    { raw
      display := String.ofList (Octets.dump raw)
      value := none
      status := .fallback reason }

end Field

/-- The reading of a bit member in a storage word with the given bytes. -/
def BitMember.decode (b : BitMember) (raw : List UInt8) (word : UInt64) : Reading :=
  let v := Value.ofWord (b.span.extract word)
  { raw
    display := labelled v.display v.display b.labels
    value := some v
    status := .ok }

namespace Slot

/-- The entry of a field, and after it those of its bit members. -/
def decode (s : Slot) (raw : List UInt8) : List Entry :=
  let reading := s.field.decode raw
  ⟨s.key, reading⟩ ::
    match reading.value.bind Value.pattern? with
    | some word => s.field.members.map fun b => ⟨s.memberKey b, b.decode raw word⟩
    | none => []

/-- The entries of a field with its bytes; without them the field has one of its own. -/
def entries (s : Slot) : Option (List UInt8) → List Entry
  | some raw => s.decode raw
  | none => [⟨s.key, .notAvailable⟩]

end Slot

/-- The bytes of slots that lie behind each other from an offset on, as far as the slots begin within
the bytes. One that goes beyond their end has none. Its own end is an offset too, counted in a word of
64 bits: it lies behind the bytes, unless the count wraps. -/
def slices (bytes : List UInt8) : Nat → List Slot → List (Slot × Option (List UInt8))
  | _, [] => []
  | offset, s :: slots =>
    let stop := offset + s.field.byteSize
    if bytes.length ≤ offset then []
    else if stop ≤ bytes.length then
      (s, some ((bytes.drop offset).take s.field.byteSize)) :: slices bytes stop slots
    else (s, none) :: slices bytes (stop % UInt64.size) slots

/-- The entries of what is read from an offset on. -/
def decodeFrom (bytes : List UInt8) (offset : Nat) (slots : List Slot) : List Entry :=
  (slices bytes offset slots).flatMap fun (s, raw) => s.entries raw

def Layout.decode (l : Layout) (bytes : List UInt8) : List Entry := decodeFrom bytes 0 l.slots

/-- The first reading with a key. -/
def reading? (entries : List Entry) (key : String) : Option Reading :=
  (entries.find? (·.key = key)).map Entry.reading

def Status.note : Status → String
  | .ok => ""
  | .truncated => "  [truncated]"
  | .fallback reason => "  [raw: " ++ reason ++ "]"

/-- The key, filled with spaces to a number of characters, the text and a note. -/
def Entry.line (width : Nat) (e : Entry) : String :=
  let gap := List.replicate (width - e.key.length) ' ' ++ [' ', ' ']
  e.key ++ String.ofList gap ++ e.reading.display ++ e.reading.status.note

/-- A line for each entry. The keys are filled up to the size in bytes of the longest one. -/
def dump (entries : List Entry) : String :=
  let width := ((entries.map (·.key.utf8ByteSize)).max?).getD 0
  "\n".intercalate (entries.map (Entry.line width))

end Datagram
