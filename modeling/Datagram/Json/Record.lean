import Datagram.Dict
import Datagram.Json.Token

/-!
JSON values as values of other types, and back. A record is an object, whose keys may come in any
order and among keys that are not known, or an array of the values of its keys in their own order.
-/

namespace Datagram.Json

variable {α : Type}

def text? : Json → Option String
  | .string s => s
  | _ => none

/-- A number below a bound, written as an integer. -/
def nat? (bound : Nat) : Json → Option Nat
  | .nat n => if n < bound then some n else none
  | _ => none

/-- Null stands for an absent value. -/
def option? (read : Json → Option α) : Json → Option (Option α)
  | .null => some none
  | j => (read j).map some

def list? (read : Json → Option α) : Json → Option (List α)
  | .array items => items.mapM read
  | _ => none

/-- The members of an object with the texts of their keys. -/
def members? : Json → Option (List (String × Json))
  | .object members => members.mapM fun m => m.1.map fun key => (key, m.2)
  | _ => none

/-- Of members with one key the last counts, but all have to be readable. -/
def dict? (read : Json → Option α) (j : Json) : Option (Dict α) :=
  j.members?.bind fun members =>
    (members.mapM fun m => (read m.2).map fun v => (m.1, v)).map Dict.ofList

/-- A value by its name, or by the name with a null. -/
def named? (ofName? : String → Option α) : Json → Option α
  | .string (some name) => ofName? name
  | .object [(some name, .null)] => ofName? name
  | _ => none

/-- The values of a record by their keys. -/
abbrev Record := String → Option Json

/-- No key of the record stands twice, and no value is one too many. -/
def record? (keys : List String) : Json → Option Record
  | .array items =>
    if items.length ≤ keys.length then some fun key => (keys.zip items).lookup key else none
  | j => j.members?.bind fun members =>
    if ((members.map (·.1)).filter (keys.contains ·)).Nodup then
      some fun key => members.lookup key
    else none

/-- The value of a key, or a default where the record does not have it. -/
def Record.get? (r : Record) (key : String) (default : α) (read : Json → Option α) : Option α :=
  match r key with
  | some j => read j
  | none => some default

def ofText (s : String) : Json := .string (some s)

def ofList (write : α → Json) (xs : List α) : Json := .array (xs.map write)

def ofDict (write : α → Json) (d : Dict α) : Json :=
  .object (d.entries.map fun (key, v) => (some key, write v))

/-- An object without the members that have no value. -/
def ofRecord (members : List (String × Option Json)) : Json :=
  .object (members.filterMap fun (key, j) => j.map fun j => (some key, j))

/-- A text as the value of a member that an empty text leaves out. -/
def ofNonempty (s : String) : Option Json := if s = "" then none else some (ofText s)

end Datagram.Json
