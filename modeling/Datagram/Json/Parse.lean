import Datagram.Json.Token

/-!
Reading a JSON value from its tokens, one token after the other. What is open around the place that
is read is a stack of frames.
-/

namespace Datagram.Json

/-- An array or an object that is not closed yet. What it holds is in reverse. -/
inductive Frame where
  | array (items : List Json)
  /-- The key is that of the member whose value is read. -/
  | object (members : List (Option String × Json)) (key : Option String)

/-- What may come next. -/
inductive State where
  | value (frames : List Frame)
  | firstItem (frames : List Frame)
  | firstKey (frames : List Frame)
  | key (members : List (Option String × Json)) (frames : List Frame)
  | colon (members : List (Option String × Json)) (key : Option String) (frames : List Frame)
  /-- A value is complete; its place in the innermost frame is known. -/
  | complete (value : Json) (frames : List Frame)

def beginValue (frames : List Frame) : Token → Option State
  | .openBrace => some (.firstKey frames)
  | .openBracket => some (.firstItem frames)
  | .null => some (.complete .null frames)
  | .bool b => some (.complete (.bool b) frames)
  | .nat n => some (.complete (.nat n) frames)
  | .number lexeme => some (.complete (.number lexeme) frames)
  | .string s => some (.complete (.string s) frames)
  | _ => none

def endValue (value : Json) : List Frame → Token → Option State
  | .array items :: frames, .comma => some (.value (.array (value :: items) :: frames))
  | .array items :: frames, .closeBracket =>
    some (.complete (.array (value :: items).reverse) frames)
  | .object members key :: frames, .comma => some (.key ((key, value) :: members) frames)
  | .object members key :: frames, .closeBrace =>
    some (.complete (.object ((key, value) :: members).reverse) frames)
  | _, _ => none

def step : State → Token → Option State
  | .value frames, t => beginValue frames t
  | .firstItem frames, .closeBracket => some (.complete (.array []) frames)
  | .firstItem frames, t => beginValue (.array [] :: frames) t
  | .firstKey frames, .closeBrace => some (.complete (.object []) frames)
  | .firstKey frames, .string key => some (.colon [] key frames)
  | .firstKey _, _ => none
  | .key members frames, .string key => some (.colon members key frames)
  | .key _ _, _ => none
  | .colon members key frames, .colon => some (.value (.object members key :: frames))
  | .colon _ _ _, _ => none
  | .complete value frames, t => endValue value frames t

def ofTokens? (tokens : List Token) : Option Json :=
  match tokens.foldlM step (.value []) with
  | some (.complete value []) => some value
  | _ => none

/-- The value that a text denotes, if it is a JSON text. -/
def parse? (s : List Char) : Option Json := (tokens? s).bind ofTokens?

end Datagram.Json
