import Datagram.Field

/-!
The layout of a message on the wire: the fields of its header, then those of its payload.
-/

namespace Datagram

inductive Part where
  | header
  | payload
  deriving DecidableEq, Repr

def Part.name : Part → String
  | .header => "header"
  | .payload => "payload"

/-- The key of a field's value: the part and the name, with a dot between them. -/
def Part.key (p : Part) (field : String) : String := p.name ++ "." ++ field

structure Layout where
  header : List Field := []
  payload : List Field := []
  deriving DecidableEq

/-- A field with the key of its value. -/
structure Slot where
  key : String
  field : Field
  deriving DecidableEq

/-- The key of a bit member's value. -/
def Slot.memberKey (s : Slot) (b : BitMember) : String := s.key ++ "." ++ b.name

/-- How many bytes fields take that lie behind each other. -/
def wireSize : List Field → Nat
  | [] => 0
  | f :: fs => f.byteSize + wireSize fs

/-- The size of such fields as it is counted: in a word of 64 bits, where a sum can wrap. -/
def totalSize : List Field → UInt64
  | [] => 0
  | f :: fs => .ofNat f.byteSize + totalSize fs

namespace Layout

def wireSize (l : Layout) : Nat := Datagram.wireSize l.header + Datagram.wireSize l.payload

def totalSize (l : Layout) : Nat := (Datagram.totalSize (l.header ++ l.payload)).toNat

def slotsOf (p : Part) (fields : List Field) : List Slot :=
  (fields.filter (!·.isReference)).map fun f => ⟨p.key f.name, f⟩

/-- What is on the wire, in order. References are not. -/
def slots (l : Layout) : List Slot := slotsOf .header l.header ++ slotsOf .payload l.payload

end Layout

end Datagram
