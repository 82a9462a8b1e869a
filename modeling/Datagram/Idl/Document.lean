import Datagram.Idl.Primitive

/-!
A document of struct declarations, and how members lie in a struct. Bit fields that follow each other
share a storage unit while they have one type and fit in it.
-/

namespace Datagram.Idl

structure Directives where
  packSize : Nat := 1
  bigEndian : Bool := true
  deriving DecidableEq

def Directives.endian (d : Directives) : Endian := if d.bigEndian then .big else .little

/-- What a struct is for. A message has a number, and the text that gave it. -/
inductive Role where
  | user
  | header
  | message (id : Nat) (idText : String)
  deriving DecidableEq, Repr

structure Member where
  name : String
  typeName : String
  primitive : Primitive
  arraySize : Option Nat
  bitWidth : Option Nat
  /-- The member carries the marker of the message number. -/
  isMessageId : Bool
  comment : String
  deriving DecidableEq

namespace Member

def isStruct (m : Member) : Bool := m.primitive = .struct

def count (m : Member) : Nat := m.arraySize.getD 1

/-- The size of one element, where `sizeOf` gives the sizes of structs. -/
def elementSize (sizeOf : String → Nat) (m : Member) : Nat :=
  if m.isStruct then sizeOf m.typeName else m.primitive.size

/-- A bit field has no size; the storage unit that it lies in has. -/
def totalSize (sizeOf : String → Nat) (m : Member) : Nat :=
  if m.bitWidth.isSome then 0 else m.elementSize sizeOf * m.count

end Member

structure Struct where
  name : String
  role : Role
  members : List Member
  comment : String
  deriving DecidableEq

structure Document where
  directives : Directives
  structs : List Struct
  deriving DecidableEq

/-- What is laid out as one: a plain member, or a run of bit fields in one storage unit. -/
inductive Group where
  | single (m : Member)
  | bits (first : Member) (rest : List Member)
  deriving DecidableEq

def Group.members : Group → List Member
  | .single m => [m]
  | .bits first rest => first :: rest

def Group.size (sizeOf : String → Nat) : Group → Nat
  | .single m => m.totalSize sizeOf
  | .bits first _ => first.primitive.size

/-- The size of groups that lie behind each other. -/
def Group.totalSize (sizeOf : String → Nat) : List Group → Nat
  | [] => 0
  | g :: gs => g.size sizeOf + Group.totalSize sizeOf gs

/-- Bit fields in a storage unit that is not yet closed, and how many of its bits they take. -/
structure Run where
  first : Member
  rest : List Member
  used : Nat

namespace Run

def accepts (r : Run) (m : Member) (width : Nat) : Bool :=
  r.first.primitive = m.primitive && r.used + width ≤ m.primitive.bits

def add (r : Run) (m : Member) (width : Nat) : Run :=
  { r with rest := r.rest ++ [m], used := r.used + width }

def close : Option Run → List Group
  | none => []
  | some r => [.bits r.first r.rest]

end Run

def groupsAfter : Option Run → List Member → List Group
  | run, [] => Run.close run
  | run, m :: ms =>
    match m.bitWidth, run with
    | none, run => Run.close run ++ .single m :: groupsAfter none ms
    | some width, none => groupsAfter (some ⟨m, [], width⟩) ms
    | some width, some r =>
      if r.accepts m width then groupsAfter (some (r.add m width)) ms
      else .bits r.first r.rest :: groupsAfter (some ⟨m, [], width⟩) ms

def groups (members : List Member) : List Group := groupsAfter none members

def findStruct? (structs : List Struct) (name : String) : Option Struct :=
  structs.find? (·.name = name)

/-- The structs that may still be expanded below one with this name. -/
def without (structs : List Struct) (name : String) : List Struct :=
  structs.filter (·.name ≠ name)

theorem name_of_findStruct? {structs : List Struct} {name : String} {s : Struct}
    (h : findStruct? structs name = some s) : s.name = name := by
  simpa using List.find?_some h

theorem length_without_lt {structs : List Struct} {name : String} {s : Struct}
    (h : findStruct? structs name = some s) :
    (without structs name).length < structs.length := by
  refine List.length_filter_lt_length_iff_exists.2 ⟨s, List.mem_of_find?_eq_some h, ?_⟩
  simp [name_of_findStruct? h]

/-- The size of a struct, of those that may be expanded. A struct that is not there, or that is
being expanded already, takes no bytes. -/
def sizeIn (structs : List Struct) (name : String) : Nat :=
  match _h : findStruct? structs name with
  | none => 0
  | some s =>
    Group.totalSize (fun inner => sizeIn (without structs name) inner) (groups s.members)
termination_by structs.length
decreasing_by exact length_without_lt ‹_›

namespace Document

def struct? (d : Document) (name : String) : Option Struct := findStruct? d.structs name

def header? (d : Document) : Option Struct := d.structs.find? (·.role = .header)

def userStructs (d : Document) : List Struct := d.structs.filter (·.role = .user)

/-- The structs of messages, with their numbers. -/
def messageStructs (d : Document) : List (Struct × Nat × String) :=
  d.structs.filterMap fun s =>
    match s.role with
    | .message id idText => some (s, id, idText)
    | _ => none

def structSize (d : Document) (name : String) : Nat := sizeIn d.structs name

end Document

end Datagram.Idl
