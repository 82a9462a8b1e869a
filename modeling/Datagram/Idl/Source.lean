import Datagram.Fault
import Datagram.Idl.Line
import Datagram.Text.Blank

/-!
Reading a document from its source. Directives come first, between blank lines; every declaration
after them begins a struct, and a struct ends before the next declaration at the latest.
-/

namespace Datagram.Idl

open Datagram.Text (isBlank)

/-- The table of type names, and the directives that hold unless the source gives others. -/
structure Options where
  types : TypeTable := .standard
  directives : Directives := {}

/-- The directives at the start, and the lines after them. -/
def readDirectives : Directives → List Line → Directives × List Line
  | d, [] => (d, [])
  | d, l :: ls =>
    if l.all isBlank then readDirectives d ls
    else match directive? l with
      | some (key, value) => readDirectives (d.apply key value) ls
      | none => (d, l :: ls)

/-- The text after the brace that opens a body, before the next declaration, and the lines after
that brace. -/
def findOpening : List Line → Option Line × List Line
  | [] => (none, [])
  | l :: ls =>
    if isDeclaration l then (none, l :: ls)
    else match afterBrace? l with
      | some text => (some text, ls)
      | none => findOpening ls

/-- The members up to the line that closes the body or to the next declaration, and the lines after
them. -/
def readBody (types : TypeTable) : List Line → List Member × List Line
  | [] => ([], [])
  | l :: ls =>
    if isDeclaration l then ([], l :: ls)
    else if closes l then (lineMembers types l, ls)
    else
      let (members, rest) := readBody types ls
      (lineMembers types l ++ members, rest)

/-- The members of a struct, and the lines after it. -/
def readMembers (types : TypeTable) (h : Heading) (ls : List Line) : List Member × List Line :=
  let (opening, ls) :=
    match afterBrace? h.trailer with
    | some text => (some text, ls)
    | none => findOpening ls
  match opening with
  | none => ([], ls)
  | some text =>
    if closes text then (lineMembers types text, ls)
    else
      let (members, rest) := readBody types ls
      (lineMembers types text ++ members, rest)

theorem length_findOpening_le (ls : List Line) : (findOpening ls).2.length ≤ ls.length := by
  induction ls with
  | nil => simp [findOpening]
  | cons l ls ih =>
    simp only [findOpening]
    split
    · simp
    · split
      · simp
      · exact Nat.le_succ_of_le ih

theorem length_readBody_le (types : TypeTable) (ls : List Line) :
    (readBody types ls).2.length ≤ ls.length := by
  induction ls with
  | nil => simp [readBody]
  | cons l ls ih =>
    simp only [readBody]
    split
    · simp
    · split
      · simp
      · exact Nat.le_succ_of_le ih

theorem length_readMembers_le (types : TypeTable) (h : Heading) (ls : List Line) :
    (readMembers types h ls).2.length ≤ ls.length := by
  simp only [readMembers]
  cases afterBrace? h.trailer with
  | some text =>
    dsimp only
    split
    · exact Nat.le_refl _
    · exact length_readBody_le types ls
  | none =>
    dsimp only
    cases (findOpening ls).1 with
    | none => exact length_findOpening_le ls
    | some text =>
      dsimp only
      split
      · exact length_findOpening_le ls
      · exact Nat.le_trans (length_readBody_le types _) (length_findOpening_le ls)

def Struct.ofHeading (h : Heading) (members : List Member) : Struct :=
  { name := String.ofList h.name
    role := Role.ofMarker h.marker
    members
    comment := h.comment }

def readStructs (types : TypeTable) : List Line → List Struct
  | [] => []
  | l :: ls =>
    match declaration? l with
    | none => readStructs types ls
    | some h =>
      let body := readMembers types h ls
      Struct.ofHeading h body.1 :: readStructs types body.2
termination_by ls => ls.length
decreasing_by
  · simp
  · exact Nat.lt_succ_of_le (length_readMembers_le types h ls)

/-- The structs with the role of a header taken from all but the first that has it. -/
def keepFirstHeader : List Struct → List Struct
  | [] => []
  | s :: ss =>
    if s.role = .header then
      s :: ss.map fun t => if t.role = .header then { t with role := .user } else t
    else s :: keepFirstHeader ss

namespace Document

def parse (options : Options) (text : String) : Except Fault Document :=
  let s := text.toList
  if s.all isBlank then .error .emptyInput
  else
    let (directives, ls) := readDirectives options.directives (Text.lines s)
    .ok ⟨directives, keepFirstHeader (readStructs options.types ls)⟩

end Document

end Datagram.Idl
