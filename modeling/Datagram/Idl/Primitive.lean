import Datagram.Field
import Datagram.Text.Blank
import Datagram.Text.Lowercase

/-!
The types of struct members: the primitive ones, and references to other structs. A type name is
looked up in a table without its blanks and in lower case; a name that the table does not have is the
name of a struct.
-/

namespace Datagram.Idl

inductive Primitive where
  | int (signed : Bool) (width : Width)
  | bool
  | float
  | double
  | struct
  deriving DecidableEq, Repr

namespace Primitive

/-- The numeric field type of the same width; a struct has none. -/
def scalar? : Primitive → Option Scalar
  | int signed width => some (.int signed width)
  | bool => some (.int false .w8)
  | float => some .float
  | double => some .double
  | struct => none

/-- The width in bytes; a struct has none of its own. -/
def size (p : Primitive) : Nat :=
  match p.scalar? with
  | some s => s.bytes
  | none => 0

def bits (p : Primitive) : Nat := 8 * p.size

def isSigned : Primitive → Bool
  | int signed _ => signed
  | float => true
  | double => true
  | _ => false

def isInteger : Primitive → Bool
  | int .. => true
  | bool => true
  | _ => false

end Primitive

/-- How a field type is written in a struct. What has no width of its own is written as bytes. -/
def typeName : FieldType → String
  | .scalar (.int false .w8) => "unsigned char"
  | .scalar (.int true .w8) => "char"
  | .scalar (.int true .w16) => "short"
  | .scalar (.int false .w16) => "unsigned short"
  | .scalar (.int true .w32) => "int"
  | .scalar (.int false .w32) => "unsigned int"
  | .scalar (.int true .w64) => "long"
  | .scalar (.int false .w64) => "unsigned long"
  | .scalar .float => "float"
  | .scalar .double => "double"
  | .padding => "unsigned char"
  | .string => "unsigned char"
  | .bytes => "unsigned char"

/-- A type name as the table has it: no blanks, lower case. -/
def normalize (name : String) : String :=
  String.ofList ((name.toList.filter (!Text.isBlank ·)).flatMap Text.lowercase)

structure TypeTable where
  aliases : Dict Primitive

namespace TypeTable

def empty : TypeTable := ⟨∅⟩

def withAlias (t : TypeTable) (name : String) (p : Primitive) : TypeTable :=
  ⟨t.aliases.insert (normalize name) p⟩

def resolve (t : TypeTable) (name : String) : Primitive :=
  (t.aliases.get? (normalize name)).getD .struct

/-- The usual names, in groups with one meaning. -/
def standardNames : List (Primitive × List String) :=
  [(.int true .w8, ["char", "int8", "int8_t", "sbyte", "signedchar"]),
   (.int false .w8, ["unsignedchar", "uchar", "uint8", "uint8_t", "byte"]),
   (.bool, ["bool", "boolean"]),
   (.int true .w16, ["short", "int16", "int16_t", "shortint", "signedshort"]),
   (.int false .w16, ["unsignedshort", "ushort", "uint16", "uint16_t", "word"]),
   (.int true .w32, ["int", "int32", "int32_t", "signed", "signedint"]),
   (.int false .w32, ["unsignedint", "uint", "uint32", "uint32_t", "unsigned", "dword"]),
   (.int true .w64, ["long", "int64", "int64_t", "longlong", "signedlong"]),
   (.int false .w64, ["unsignedlong", "ulong", "uint64", "uint64_t", "unsignedlonglong", "qword"]),
   (.float, ["float", "float32", "single"]),
   (.double, ["double", "float64"])]

def standard : TypeTable :=
  ⟨Dict.ofList (standardNames.flatMap fun (p, names) => names.map fun name => (name, p))⟩

end TypeTable

end Datagram.Idl
