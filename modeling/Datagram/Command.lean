import Datagram.Codec.Decode
import Datagram.Codec.Encode
import Datagram.Files
import Datagram.Octets.Input

/-!
The command line: converting a catalogue, listing its messages, and encoding and decoding one of
them.
-/

namespace Datagram

open Datagram.Text (decimal quoted trim)

/-- What a command prints, and its exit code. -/
structure Outcome where
  exit : UInt32
  out : String
  err : String

namespace Command

def usage : String :=
  "usage: udpapi <convert IN OUT | show FILE | encode FILE MESSAGE [KEY=VALUE ...] | "
    ++ "decode FILE MESSAGE HEX>"

/-- The messages of a failure, outermost first. -/
abbrev Failure := List String

/-- A cause behind four spaces, or behind its number if there are several. -/
def causeText (number : Option Nat) (cause : String) : String :=
  let first := match number with
    | some n => String.ofList ((decimal n).leftpad 5 ' ') ++ ": "
    | none => "    "
  let next := match number with
    | some _ => "       "
    | none => "    "
  first ++ ("\n" ++ next).intercalate (cause.splitOn "\n")

def failureText : Failure → String
  | [] => "Error: "
  | [message] => "Error: " ++ message
  | [message, cause] => "Error: " ++ message ++ "\n\nCaused by:\n" ++ causeText none cause
  | message :: causes =>
    "Error: " ++ message ++ "\n\nCaused by:\n"
      ++ "\n".intercalate (causes.zipIdx.map fun (cause, i) => causeText (some i) cause)

def done (out err : String) : Outcome := { exit := 0, out, err }

def Failure.outcome (f : Failure) : Outcome :=
  { exit := 1, out := "", err := failureText f ++ "\n" }

def ofFault {α : Type} : Except Fault α → Except Failure α
  | .ok a => .ok a
  | .error fault => .error fault.messages

def within {α : Type} (context : String) : Except Failure α → Except Failure α
  | .ok a => .ok a
  | .error f => .error (context :: f)

def number (n : Nat) : String := String.ofList (decimal n)

/-- A number in at least four columns. -/
def column (n : Nat) : String := String.ofList ((decimal n).leftpad 4 ' ')

def messageLine (name : String) (m : Message) : String :=
  let request := column (m.request.elim 0 Layout.totalSize)
  let gap := String.ofList (List.replicate (32 - name.length) ' ')
  let response := m.response.elim "" fun l => "  response " ++ column l.totalSize ++ " bytes"
  name ++ gap ++ " request " ++ request ++ " bytes" ++ response

/-- The title of a catalogue, its servers, and its messages with their sizes. -/
def listing (c : Catalog) : String :=
  let title := c.info.title ++ " (" ++ c.info.version ++ ")"
  let description := if c.info.description = "" then [] else ["  " ++ c.info.description]
  let servers := c.servers.map fun s =>
    "server " ++ s.name ++ " " ++ s.ip ++ ":" ++ number s.port.toNat
  let messages := c.messages.entries.map fun (name, m) => messageLine name m
  String.join (((title :: description) ++ servers ++ messages).map (· ++ "\n"))

/-- A key and a value with an equals sign between them; blanks around the key do not count. -/
def assignment? (argument : String) : Option (String × String) :=
  let s := argument.toList
  match s.dropWhile (· ≠ '=') with
  | [] => none
  | _ :: value => some (String.ofList (trim (s.takeWhile (· ≠ '='))), String.ofList value)

def assignment (argument : String) : Except Failure (String × String) :=
  match assignment? argument with
  | some e => .ok e
  | none => .error ["expected KEY=VALUE, got " ++ quoted argument]

/-- Of assignments with one key the last counts. -/
def assignments (arguments : List String) : Except Failure Values :=
  (arguments.mapM assignment).map Dict.ofList

def warning (f : EncodedField) (cause : EncodeFailure) : String :=
  "warning: " ++ f.key ++ " zero-filled: " ++ cause.message ++ "\n"

def encode (c : Catalog) (message : String) (arguments : List String) :
    Except Failure Outcome := do
  let values ← assignments arguments
  let layout ← ofFault (c.requestLayout message)
  let fields := layout.encodeFields values
  let bytes := fields.flatMap (·.encoding.bytes)
  let warnings := fields.filterMap fun f => f.encoding.failure?.map (warning f)
  return done (String.ofList (Octets.dump bytes) ++ "\n") (String.join warnings)

def decode (c : Catalog) (message : String) (arguments : List String) :
    Except Failure Outcome := do
  let bytes ← (Octets.ofInput (" ".intercalate arguments).toList).mapError HexFault.messages
  let layout ← ofFault (c.requestLayout message)
  return done (dump (layout.decode bytes) ++ "\n") ""

section

variable {m : Type → Type} [Monad m] (disk : Disk m)

def load (path : String) : m (Except Failure Catalog) := do
  return within ("loading " ++ path) (ofFault (← disk.load .standard path))

/-- Loads a catalogue and goes on with it. -/
def loading (path : String) (next : Catalog → m (Except Failure Outcome)) :
    m (Except Failure Outcome) := do
  match ← load disk path with
  | .ok c => next c
  | .error f => return .error f

def convert (input output : String) (c : Catalog) : m (Except Failure Outcome) := do
  match within ("writing " ++ output) (ofFault (← disk.save c output)) with
  | .error f => return .error f
  | .ok () =>
    return .ok <| done "" <|
      input ++ " -> " ++ output ++ " (" ++ number c.messages.size ++ " messages)\n"

def attempt : List String → m (Except Failure Outcome)
  | ["convert", input, output] => loading disk input (convert disk input output)
  | ["show", file] => loading disk file fun c => return .ok (done (listing c) "")
  | "encode" :: file :: message :: arguments =>
    loading disk file fun c => return encode c message arguments
  | "decode" :: file :: message :: hex :: more =>
    loading disk file fun c => return decode c message (hex :: more)
  | _ => return .error [usage]

def run (arguments : List String) : m Outcome := do
  match ← attempt disk arguments with
  | .ok outcome => return outcome
  | .error f => return Failure.outcome f

end

end Command

end Datagram
