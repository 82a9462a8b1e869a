import Datagram.Idl.Document
import Datagram.Text.Numeral

/-!
The grammar of a line: a directive, the declaration of a struct, or text of a struct's body. A line
that is none of these says nothing; it is no error. Words have letters, digits and underscores, and
the gaps between them spaces and tabs.
-/

namespace Datagram.Idl

open Datagram.Text (afterHexMark? isBlank naturalBelow? trim trimStart)

abbrev Line := List Char

def isWordChar (c : Char) : Bool := c.isAlphanum || c = '_'

def isGap (c : Char) : Bool := c = ' ' || c = '\t'

def skipGap (s : List Char) : List Char := s.dropWhile isGap

/-- The code of a line, and its comment from `//` on. -/
def splitComment : List Char → List Char × List Char
  | [] => ([], [])
  | '/' :: '/' :: s => ([], '/' :: '/' :: s)
  | c :: s => let (code, comment) := splitComment s; (c :: code, comment)

/-- The marker of the header struct, and of the member with the message number. -/
def idMarker : List Char := "//$()$".toList

/-- The text without markers. -/
def dropMarkers : List Char → List Char
  | [] => []
  | '/' :: '/' :: '$' :: '(' :: ')' :: '$' :: s => dropMarkers s
  | c :: s => c :: dropMarkers s

def hasMarker : List Char → Bool
  | [] => false
  | '/' :: '/' :: '$' :: '(' :: ')' :: '$' :: _ => true
  | _ :: s => hasMarker s

/-! ### Directives -/

/-- The key, in upper case, and the value of a directive `//+KEY=VALUE`. -/
def directive? (line : Line) : Option (String × String) :=
  match skipGap line with
  | '/' :: '/' :: '+' :: s =>
    let key := s.takeWhile isWordChar
    match key, skipGap (s.dropWhile isWordChar) with
    | _ :: _, '=' :: value =>
      some (String.ofList (key.map Char.toUpper), String.ofList (trim value))
    | _, _ => none
  | _ => none

/-- A directive that is not known, or with a pack size that is no positive number, has no effect. -/
def Directives.apply (d : Directives) (key value : String) : Directives :=
  if key = "PACK_SIZE" then
    match naturalBelow? 10 UInt32.size value.toList with
    | some n => if n = 0 then d else { d with packSize := n }
    | none => d
  else if key = "MOST_BYTE" then
    { d with bigEndian := value.toList.map Char.toLower = "true".toList }
  else d

/-! ### Declarations -/

/-- The first line of a struct: its name, the text of its marker, and the rest of the line. -/
structure Heading where
  name : List Char
  marker : Option (List Char)
  trailer : List Char
  deriving DecidableEq

/-- The text up to `)$`, and the text after it. -/
def splitMarkerEnd? : List Char → Option (List Char × List Char)
  | [] => none
  | ')' :: '$' :: s => some ([], s)
  | c :: s => (splitMarkerEnd? s).map fun (body, rest) => (c :: body, rest)

/-- A marker `//$(...)$` in front of a text, if there is a whole one, and the rest. -/
def splitMarker (s : List Char) : Option (List Char) × List Char :=
  match s with
  | '/' :: '/' :: '$' :: '(' :: body =>
    match splitMarkerEnd? body with
    | some (text, rest) => (some text, rest)
    | none => (none, s)
  | _ => (none, s)

/-- The word `struct` and a name, whatever comes after them. -/
def heading? (line : Line) : Option Heading :=
  match "struct".toList.isPrefixOf? (skipGap line) with
  | none => none
  | some s =>
    let name := (skipGap s).takeWhile isWordChar
    if s.head?.any isGap && !name.isEmpty then
      let (marker, trailer) := splitMarker (skipGap ((skipGap s).dropWhile isWordChar))
      some ⟨name, marker, trailer⟩
    else none

/-- A heading with no code after it but a body. With other code after it, it is a member of struct
type. -/
def declaration? (line : Line) : Option Heading :=
  (heading? line).filter fun h =>
    match trimStart (splitComment h.trailer).1 with
    | [] => true
    | c :: _ => c = '{'

def isDeclaration (line : Line) : Bool := (declaration? line).isSome

/-- A message number, decimal or in hexadecimal with a mark. -/
def messageId? (text : List Char) : Option Nat :=
  let s := trim text
  match afterHexMark? s with
  | some digits => naturalBelow? 16 UInt32.size digits
  | none => naturalBelow? 10 UInt32.size s

/-- What a marker says. One that is neither empty nor a number says nothing. -/
def Role.ofMarker : Option (List Char) → Role
  | none => .user
  | some marker =>
    let text := trim marker
    if text.isEmpty then .header
    else match messageId? text with
      | some id => .message id (String.ofList text)
      | none => .user

/-- The comment after a heading. -/
def Heading.comment (h : Heading) : String :=
  String.ofList (trim ((splitComment h.trailer).2.drop 2))

/-! ### Members -/

/-- The code of a member before its type is known: its words, the digits between brackets and those
after a colon. -/
structure Declarator where
  words : List (List Char)
  arrayDigits : Option (List Char)
  bitDigits : Option (List Char)
  deriving DecidableEq

/-- One or more digits, and the text after them. -/
def digits? (s : List Char) : Option (List Char × List Char) :=
  let digits := s.takeWhile Char.isDigit
  if digits.isEmpty then none else some (digits, s.dropWhile Char.isDigit)

/-- An array size `[N]` if there is a bracket, and the text after it. -/
def arrayPart? (s : List Char) : Option (Option (List Char) × List Char) :=
  match s with
  | '[' :: s =>
    match digits? (skipGap s) with
    | none => none
    | some (digits, s) =>
      match skipGap s with
      | ']' :: s => some (some digits, s)
      | _ => none
  | _ => some (none, s)

/-- A bit width `: N` if there is a colon, and the text after it. -/
def bitPart? (s : List Char) : Option (Option (List Char) × List Char) :=
  match s with
  | ':' :: s => (digits? (skipGap s)).map fun (digits, s) => (some digits, s)
  | _ => some (none, s)

/-- A semicolon and nothing but a gap after it. -/
def isEnd (s : List Char) : Bool :=
  match s with
  | ';' :: s => (skipGap s).isEmpty
  | _ => false

/-- At least two words, an array size or none, a bit width or none, and a semicolon. -/
def declarator? (code : List Char) : Option Declarator :=
  let inName := fun c => isWordChar c || isGap c
  let words := ((code.takeWhile inName).splitOnP isGap).filter (!·.isEmpty)
  match arrayPart? (code.dropWhile inName) with
  | none => none
  | some (arrayDigits, s) =>
    match bitPart? (skipGap s) with
    | none => none
    | some (bitDigits, s) =>
      if 2 ≤ words.length && isEnd (skipGap s) then some ⟨words, arrayDigits, bitDigits⟩ else none

/-- All words but the last, one space between them, without the keyword `struct` in front. -/
def Declarator.typeName (d : Declarator) : List Char :=
  let text := List.intercalate [' '] d.words.dropLast
  ("struct ".toList.isPrefixOf? text).getD text

def Declarator.name (d : Declarator) : List Char := d.words.getLastD []

/-- A number of 32 bits. A longer one counts as absent. -/
def number? (digits : Option (List Char)) : Option Nat := digits.bind (naturalBelow? 10 UInt32.size)

def isCommentOnly : List Char → Bool
  | '/' :: '/' :: _ => true
  | '/' :: '*' :: _ => true
  | '*' :: _ => true
  | _ => false

/-- The text of a comment without markers and without the slashes in front. -/
def commentText (comment : List Char) : List Char :=
  trim ((trim (dropMarkers comment)).dropWhile (· = '/'))

/-- A member of a struct. A bit width counts on an integer type only; it is cut off at the width of
the type, and with a width of zero there is no member. -/
def member? (types : TypeTable) (line : Line) : Option Member :=
  let text := trim line
  if isCommentOnly text then none
  else
    let (code, comment) := splitComment text
    (declarator? (trim code)).bind fun d =>
      let typeName := String.ofList d.typeName
      let primitive := types.resolve typeName
      let bitWidth := if primitive.isInteger then number? d.bitDigits else none
      if bitWidth = some 0 then none
      else some
        { name := String.ofList d.name
          typeName
          primitive
          arraySize := number? d.arrayDigits
          bitWidth := bitWidth.map (min · primitive.bits)
          isMessageId := hasMarker text
          comment := String.ofList (commentText comment) }

/-! ### Bodies -/

/-- The text after the brace that opens a body. -/
def afterBrace? (line : Line) : Option Line :=
  if '{' ∈ (splitComment line).1 then some ((line.dropWhile (· ≠ '{')).drop 1) else none

/-- What ends with a semicolon, each with its semicolon. -/
def statements (code : List Char) : List (List Char) :=
  (code.splitOn ';').dropLast.map (· ++ [';'])

/-- The comment of a line belongs to its last statement. -/
def attachComment (comment : List Char) : List (List Char) → List (List Char)
  | [] => []
  | [s] => [s ++ comment]
  | s :: ss => s :: attachComment comment ss

/-- Whether a line of a body closes it. -/
def closes (line : Line) : Bool := '}' ∈ (splitComment line).1

/-- The members on a line of a body, up to the brace that closes it. -/
def lineMembers (types : TypeTable) (line : Line) : List Member :=
  let (code, comment) := splitComment line
  let comment := if closes line then [] else comment
  let code := code.takeWhile (· ≠ '}')
  (attachComment comment (statements code)).filterMap (member? types)

end Datagram.Idl
