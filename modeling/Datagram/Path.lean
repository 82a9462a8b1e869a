/-!
File names. A path is taken apart at its slashes; empty parts and single dots do not count, so that a
slash at the end changes nothing. The extension of a name is what follows its last dot, unless that
dot is the first character.
-/

namespace Datagram.Path

/-- The parts of a path that count. -/
def parts (path : String) : List (List Char) :=
  (path.toList.splitOn '/').filter fun p => p ≠ [] ∧ p ≠ ['.']

/-- The last part of a path, if it is the name of a file. -/
def fileName? (path : String) : Option (List Char) :=
  ((parts path).getLast?).filter (· ≠ ['.', '.'])

/-- A file name before and after its last dot; none if there is no dot behind the first character. -/
def splitExtension? (name : List Char) : Option (List Char × List Char) :=
  let extension := (name.reverse.takeWhile (· ≠ '.')).reverse
  let stem := (name.reverse.dropWhile (· ≠ '.')).drop 1 |>.reverse
  if stem.isEmpty then none else some (stem, extension)

def extension? (path : String) : Option String :=
  ((fileName? path).bind splitExtension?).map fun (_, extension) => String.ofList extension

/-- The file name without its extension; empty if the path names no file. -/
def stem (path : String) : String :=
  match fileName? path with
  | none => ""
  | some name => String.ofList ((splitExtension? name).elim name Prod.fst)

end Datagram.Path
