import Datagram.Command

/-!
The program: the command line over the files of the machine.
-/

namespace Datagram

def causeOf : IO.Error → IoCause
  | .noFileOrDirectory .. => .notFound
  | .inappropriateType _ 20 _ => .notDirectory
  | .inappropriateType _ 21 _ => .isDirectory
  | .invalidArgument _ 36 _ => .nameTooLong
  | e => .other (toString e)

/-- The files of the machine. -/
def machine : Disk IO where
  isFile path := do
    match ← (IO.FS.readBinFile path).toBaseIO with
    | .ok _ => return true
    | .error e => return causeOf e ∉ [.notFound, .notDirectory, .isDirectory]
  read path := do
    match ← (IO.FS.readBinFile path).toBaseIO with
    | .error e => return .error (causeOf e)
    | .ok content =>
      match String.fromUTF8? content with
      | some text => return .ok text
      | none => return .error .notUtf8
  write path text := do
    match ← (IO.FS.writeFile path text).toBaseIO with
    | .error e => return .error (causeOf e)
    | .ok () => return .ok ()

end Datagram

def main (arguments : List String) : IO UInt32 := do
  let outcome ← Datagram.Command.run Datagram.machine arguments
  IO.print outcome.out
  IO.eprint outcome.err
  return outcome.exit
