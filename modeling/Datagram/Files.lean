import Datagram.Registry

/-!
Catalogues in files, over whatever holds the files.
-/

namespace Datagram

/-- A place of files, with what the notations need of it. -/
structure Disk (m : Type → Type) where
  /-- Whether a path names a file that is no directory. -/
  isFile : String → m Bool
  read : String → m (Except IoCause String)
  write : String → String → m (Except IoCause Unit)

variable {m : Type → Type} [Monad m]

namespace Disk

/-- The catalogue in a file. That there is no file is found before its extension is looked at. -/
def load (disk : Disk m) (registry : Registry) (path : String) : m (Except Fault Catalog) := do
  if ← disk.isFile path then
    match registry.readerOf path with
    | .error fault => return .error fault
    | .ok reader =>
      match ← disk.read path with
      | .error cause => return .error (.io cause)
      | .ok text => return reader.parse text
  else return .error (.noFile path)

/-- Writes a catalogue in the dialect that the standard registry has for the file. -/
def save (disk : Disk m) (c : Catalog) (path : String) : m (Except Fault Unit) := do
  match Registry.standard.readerOf path with
  | .error fault => return .error fault
  | .ok reader =>
    match ← disk.write path (reader.dialect.serialize c) with
    | .error cause => return .error (.io cause)
    | .ok () => return .ok ()

end Disk

end Datagram
