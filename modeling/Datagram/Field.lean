import Datagram.BitMember
import Datagram.Scalar

/-!
The fields of a message, and the operations that build one. A field of a fixed width has no size of
its own, and only integer fields have bit members; the operations keep that so.
-/

namespace Datagram

inductive FieldType where
  | scalar (s : Scalar)
  | padding
  | string
  | bytes
  deriving DecidableEq, Repr

namespace FieldType

def byte : FieldType := .scalar (.int false .w8)

def fixedSize? : FieldType → Option Nat
  | .scalar s => some s.bytes
  | _ => none

/-- The size that a field of variable width gets when none is given. -/
def defaultSize? : FieldType → Option UInt64
  | .scalar _ => none
  | .padding => some 1
  | .string => some 16
  | .bytes => some 4

def isInteger : FieldType → Bool
  | .scalar s => s.isInteger
  | _ => false

def isNumeric : FieldType → Bool
  | .scalar _ => true
  | _ => false

def isSigned : FieldType → Bool
  | .scalar s => s.isSigned
  | _ => false

def name : FieldType → String
  | .scalar s => s.name
  | .padding => "padding"
  | .string => "string"
  | .bytes => "bytes"

def all : List FieldType :=
  [.scalar (.int false .w8), .scalar (.int true .w8), .scalar (.int true .w16),
   .scalar (.int false .w16), .scalar (.int true .w32), .scalar (.int false .w32),
   .scalar (.int true .w64), .scalar (.int false .w64), .scalar .float, .scalar .double,
   .padding, .string, .bytes]

def ofName? (name : String) : Option FieldType := all.find? (·.name = name)

theorem ofName?_name (t : FieldType) : ofName? t.name = some t := by
  cases t with
  | scalar s =>
    cases s with
    | int signed w => cases signed <;> cases w <;> decide
    | float => decide
    | double => decide
  | padding => decide
  | string => decide
  | bytes => decide

end FieldType

inductive Endian where
  | little
  | big
  deriving DecidableEq, Repr

def Endian.name : Endian → String
  | .little => "little"
  | .big => "big"

def Endian.ofName? : String → Option Endian
  | "little" => some .little
  | "big" => some .big
  | _ => none

/-- How the value of a numeric field is written. -/
inductive Radix where
  | decimal
  | hex
  | binary
  deriving DecidableEq, Repr

def Radix.name : Radix → String
  | .decimal => "decimal"
  | .hex => "hex"
  | .binary => "binary"

def Radix.ofName? : String → Option Radix
  | "decimal" => some .decimal
  | "hex" => some .hex
  | "binary" => some .binary
  | _ => none

structure Field where
  name : String := ""
  type : FieldType := .byte
  /-- The literal that stands for a value that the caller does not give. -/
  value : Option String := none
  /-- The number of bytes, for types of variable width. -/
  size : Option UInt64 := none
  endian : Endian := .big
  description : String := ""
  radix : Radix := .decimal
  labels : Option (Dict String) := none
  bits : Option (List BitMember) := none
  /-- The component whose fields stand here instead. -/
  target : Option String := none
  deriving DecidableEq

namespace Field

instance : Inhabited Field := ⟨{}⟩

/-- A field of another type. The size and the bit members follow the type. -/
def retyped (f : Field) (type : FieldType) : Field :=
  { f with
    type
    size := match type.fixedSize? with
      | some _ => none
      | none => f.size <|> type.defaultSize?
    bits := if type.isInteger then f.bits else none }

def new (name : String) (type : FieldType) : Field := retyped { name } type

def reference (target : String) : Field := { target := some target }

def withValue (f : Field) (value : String) : Field := { f with value := some value }

/-- A fixed width ignores the size. -/
def withSize (f : Field) (size : UInt64) : Field :=
  if f.type.fixedSize?.isNone then { f with size := some size } else f

def withEndian (f : Field) (endian : Endian) : Field := { f with endian }

def withRadix (f : Field) (radix : Radix) : Field := { f with radix }

def withDescription (f : Field) (description : String) : Field := { f with description }

def withLabels (f : Field) (labels : Dict String) : Field := { f with labels := some labels }

/-- Only an integer field takes bit members. -/
def withBits (f : Field) (bits : List BitMember) : Field :=
  if f.type.isInteger then { f with bits := some bits } else f

/-- The target of a reference; an empty one makes no reference. -/
def target? (f : Field) : Option String := f.target.filter (· ≠ "")

def isReference (f : Field) : Bool := f.target?.isSome

def members (f : Field) : List BitMember := f.bits.getD []

/-- The width on the wire. A reference takes no bytes. -/
def byteSize (f : Field) : Nat :=
  if f.isReference then 0
  else match f.type.fixedSize? with
    | some n => n
    | none => (f.size.getD 0).toNat

theorem byteSize_of_scalar {f : Field} (hr : f.isReference = false) {s : Scalar}
    (ht : f.type = .scalar s) : f.byteSize = s.bytes := by
  simp [byteSize, hr, ht, FieldType.fixedSize?]

theorem bits_of_scalar {f : Field} (hr : f.isReference = false) {s : Scalar}
    (ht : f.type = .scalar s) : 8 * f.byteSize = s.bits := by
  rw [byteSize_of_scalar hr ht, Scalar.bits]

end Field

end Datagram
