/-!
Why a catalogue cannot be read, checked, found or written, and the text that says so.
-/

namespace Datagram

/-- What a catalogue or a look-up in it violates. -/
inductive Violation where
  | blankTitle
  | missingRequest (message : String)
  | unknownMessage (message : String)
  | missingResponse (message : String)
  deriving DecidableEq, Repr

def Violation.message : Violation → String
  | .blankTitle => "info.title must not be empty"
  | .missingRequest name => "message " ++ name ++ ": missing request"
  | .unknownMessage name => "unknown message: " ++ name
  | .missingResponse name => "message " ++ name ++ " has no response"

/-- What reading or writing a file can run into. -/
inductive IoCause where
  | notFound
  | notDirectory
  | isDirectory
  | alreadyExists
  | nameTooLong
  | zeroInName
  | notUtf8
  | other (text : String)
  deriving DecidableEq, Repr

def IoCause.message : IoCause → String
  | .notFound => "No such file or directory (os error 2)"
  | .notDirectory => "Not a directory (os error 20)"
  | .isDirectory => "Is a directory (os error 21)"
  | .alreadyExists => "File exists (os error 17)"
  | .nameTooLong => "File name too long (os error 36)"
  | .zeroInName => "file name contained an unexpected NUL byte"
  | .other text => text
  | .notUtf8 => "stream did not contain valid UTF-8"

inductive Fault where
  | noFile (path : String)
  | emptyInput
  | invalid (violation : Violation)
  | malformed
  | unsupported (what : String)
  | io (cause : IoCause)
  deriving DecidableEq, Repr

def Fault.message : Fault → String
  | .noFile path => "File not found: " ++ path
  | .emptyInput => "Empty input"
  | .invalid v => "Validation: " ++ v.message
  | .malformed => "Syntax: not a catalogue"
  | .unsupported what => "Unsupported format: " ++ what
  | .io cause => "IO: " ++ cause.message

/-- The messages of a fault and of what caused it, outermost first. -/
def Fault.messages : Fault → List String
  | .io cause => [Fault.message (.io cause), cause.message]
  | f => [f.message]

end Datagram
