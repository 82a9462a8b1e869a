import Datagram.Codec.Literal
import Datagram.Layout
import Datagram.Octets

/-!
Writing a message. Each field takes its literal from the given values, else from its own default,
else zero. A field whose literals cannot be read is written as zeros, so that the fields after it
keep their places.
-/

namespace Datagram

/-- Literals by key. -/
abbrev Values := Dict String

/-- The bytes of one field, or how many zeros stand for them and why. -/
inductive Encoding where
  | ok (bytes : List UInt8)
  | zeroFilled (size : Nat) (cause : EncodeFailure)
  deriving DecidableEq

namespace Encoding

def bytes : Encoding → List UInt8
  | .ok b => b
  | .zeroFilled n _ => List.replicate n 0

def failure? : Encoding → Option EncodeFailure
  | .ok _ => none
  | .zeroFilled _ cause => some cause

end Encoding

structure EncodedField where
  key : String
  encoding : Encoding
  deriving DecidableEq

namespace Slot

def literal (s : Slot) (values : Values) : String :=
  (values.get? s.key <|> s.field.value).getD "0"

def memberLiteral? (s : Slot) (values : Values) (b : BitMember) : Option String :=
  values.get? (s.memberKey b) <|> b.value

/-- The word with the value of a member in its bits, if the member has one. -/
def overlay (s : Slot) (values : Values) (word : UInt64) (b : BitMember) :
    Except EncodeFailure UInt64 :=
  match s.memberLiteral? values b with
  | none => .ok word
  | some literal =>
    match Literal.memberValue? literal.toList with
    | some v => .ok (b.span.insert word v)
    | none => .error (.invalidLiteral literal s.field.type)

/-- The storage word of a numeric field: its own pattern, and the members over it in their order. -/
def word (s : Slot) (scalar : Scalar) (values : Values) : Except EncodeFailure UInt64 :=
  let literal := s.literal values
  match Literal.scalarPattern? scalar s.field.radix literal.toList with
  | some base => s.field.members.foldlM (s.overlay values) base
  | none => .error (.invalidLiteral literal s.field.type)

def bytes (s : Slot) (values : Values) : Except EncodeFailure (List UInt8) :=
  let size := s.field.byteSize
  let literal := (s.literal values).toList
  match s.field.type with
  | .padding => .ok (List.replicate size 0)
  | .string => .ok (Octets.fit size (Literal.ascii literal))
  | .bytes => (Literal.octets literal).map (Octets.fit size)
  | .scalar scalar =>
    (s.word scalar values).map fun w => Octets.write s.field.endian scalar.bytes w.toNat

def encode (s : Slot) (values : Values) : Encoding :=
  match s.bytes values with
  | .ok b => .ok b
  | .error cause => .zeroFilled s.field.byteSize cause

end Slot

namespace Layout

def encodeFields (l : Layout) (values : Values) : List EncodedField :=
  l.slots.map fun s => ⟨s.key, s.encode values⟩

def encode (l : Layout) (values : Values) : List UInt8 :=
  (l.encodeFields values).flatMap fun f => f.encoding.bytes

end Layout

end Datagram
