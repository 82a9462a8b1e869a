import Datagram.Json.Token
import Datagram.Text.Numeral

/-!
Writing a JSON value, without blanks or with a line for each item and member. Of the characters in a
string only quotes, backslashes and those below the space are escaped.
-/

namespace Datagram.Json

open Datagram.Text (decimal lowerHex zeroPadded)

def escaped (c : Char) : List Char :=
  match c with
  | '"' => ['\\', '"']
  | '\\' => ['\\', '\\']
  | '\n' => ['\\', 'n']
  | '\r' => ['\\', 'r']
  | '\t' => ['\\', 't']
  | '\x08' => ['\\', 'b']
  | '\x0c' => ['\\', 'f']
  | c => if c.toNat < 0x20 then ['\\', 'u'] ++ zeroPadded 4 (lowerHex c.toNat) else [c]

/-- A string in quotes. One that has no text is written as half of a surrogate pair. -/
def quotedText : Option String → List Char
  | some s => ['"'] ++ s.toList.flatMap escaped ++ ['"']
  | none => "\"\\ud800\"".toList

def scalarText : Json → List Char
  | .null => "null".toList
  | .bool true => "true".toList
  | .bool false => "false".toList
  | .nat n => decimal n
  | .number lexeme => lexeme.toList
  | .string s => quotedText s
  | _ => []

mutual

def compact : Json → List Char
  | .array items => ['['] ++ List.intercalate [','] (compactItems items) ++ [']']
  | .object members =>
    ['\x7b'] ++ List.intercalate [','] (compactMembers members) ++ ['\x7d']
  | j => scalarText j

def compactItems : List Json → List (List Char)
  | [] => []
  | j :: js => compact j :: compactItems js

def compactMembers : List (Option String × Json) → List (List Char)
  | [] => []
  | (key, j) :: ms => (quotedText key ++ [':'] ++ compact j) :: compactMembers ms

end

/-- A new line and its indentation. -/
def newline (indent : Nat) : List Char := '\n' :: List.replicate indent ' '

/-- Brackets around lines of their own, two columns further in; nothing between them if there are no
lines. -/
def block (indent : Nat) (opening closing : Char) (lines : List (List Char)) : List Char :=
  if lines.isEmpty then [opening, closing]
  else
    [opening] ++ newline (indent + 2)
      ++ List.intercalate (',' :: newline (indent + 2)) lines ++ newline indent ++ [closing]

mutual

def pretty (indent : Nat) : Json → List Char
  | .array items => block indent '[' ']' (prettyItems (indent + 2) items)
  | .object members => block indent '\x7b' '\x7d' (prettyMembers (indent + 2) members)
  | j => scalarText j

def prettyItems (indent : Nat) : List Json → List (List Char)
  | [] => []
  | j :: js => pretty indent j :: prettyItems indent js

def prettyMembers (indent : Nat) : List (Option String × Json) → List (List Char)
  | [] => []
  | (key, j) :: ms => (quotedText key ++ [':', ' '] ++ pretty indent j) :: prettyMembers indent ms

end

end Datagram.Json
