import Datagram.Catalog.Json
import Datagram.Idl.Export
import Datagram.Idl.Import
import Datagram.Idl.Source
import Datagram.Path

/-!
The notations in which catalogues are read and written, and the file name extensions that tell them
apart.
-/

namespace Datagram

inductive Dialect where
  | idl (options : Idl.Options)
  | json

namespace Dialect

/-- The catalogue of a text; the name of its source is the title where the text has none. -/
def parse (d : Dialect) (source text : String) : Except Fault Catalog :=
  match d with
  | .idl options => (Idl.Document.parse options text).map (·.toCatalog source)
  | .json => Catalog.ofJsonText text

def serialize (d : Dialect) (c : Catalog) : String :=
  match d with
  | .idl _ => c.toIdl
  | .json => c.toJsonText

end Dialect

structure Registry where
  dialects : Dict Dialect

/-- A dialect with the name of the source that it reads. -/
structure Reader where
  dialect : Dialect
  source : String

def Reader.parse (r : Reader) (text : String) : Except Fault Catalog := r.dialect.parse r.source text

namespace Registry

/-- An extension as the registry has it: no dots in front, lower case. -/
def extensionKey (extension : String) : String :=
  String.ofList ((extension.toList.dropWhile (· = '.')).map Char.toLower)

def empty : Registry := ⟨∅⟩

def register (r : Registry) (extension : String) (d : Dialect) : Registry :=
  ⟨r.dialects.insert (extensionKey extension) d⟩

def standard : Registry :=
  ((empty.register "idl" (.idl {})).register "gidl" (.idl {})).register "json" .json

def extensions (r : Registry) : List String := r.dialects.keys

def reader (r : Registry) (kind source : String) : Except Fault Reader :=
  match r.dialects.get? (extensionKey kind) with
  | some d => .ok ⟨d, source⟩
  | none => .error (.unsupported kind)

/-- The dialect of a file by its extension; the rest of its name is that of the source. -/
def readerOf (r : Registry) (path : String) : Except Fault Reader :=
  match Path.extension? path with
  | some extension => r.reader extension (Path.stem path)
  | none => .error (.unsupported path)

end Registry

end Datagram
