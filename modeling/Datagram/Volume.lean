import Datagram.Files

/-!
A volume: directories and files as a value. Paths start at its root, and none leads out of it.
-/

namespace Datagram

inductive Node where
  | directory
  | file (content : ByteArray)

/-- What a volume holds, by the names on the way from the root. -/
structure Volume where
  nodes : List (List String × Node)

namespace Volume

def empty : Volume := ⟨[]⟩

def node? (v : Volume) (place : List String) : Option Node :=
  if place = [] then some .directory else v.nodes.lookup place

def put (v : Volume) (place : List String) (n : Node) : Volume :=
  ⟨(place, n) :: v.nodes.filter (·.1 ≠ place)⟩

/-- The greatest number of bytes in a name. -/
def nameLimit : Nat := 255

/-- The greatest number of bytes in a path. -/
def pathLimit : Nat := 4095

/-- The place that is reached from a directory. -/
def walk (v : Volume) (place : List String) : List String → Except IoCause (List String)
  | [] => .ok place
  | part :: parts =>
    match v.node? place with
    | none => .error .notFound
    | some (.file _) => .error .notDirectory
    | some .directory =>
      if part = "" ∨ part = "." then v.walk place parts
      else if part = ".." then v.walk place.dropLast parts
      else if nameLimit < part.utf8ByteSize then .error .nameTooLong
      else v.walk (place ++ [part]) parts

/-- The names in a path, with empty ones where slashes meet. -/
def names (path : String) : Except IoCause (List String) :=
  if '\x00' ∈ path.toList then .error .zeroInName
  else if pathLimit < path.utf8ByteSize then .error .nameTooLong
  else if path = "" ∨ path.startsWith "/" then .error .notFound
  else .ok (path.splitOn "/")

/-- The place of a path, if all on the way to it is there; the last part need not be. -/
def place (v : Volume) (path : String) : Except IoCause (List String) := do
  v.walk [] (← names path)

/-- The place of a path that may be new. A slash at its end does not count. -/
def newPlace (v : Volume) (path : String) : Except IoCause (List String) := do
  v.walk [] (((← names path).reverse.dropWhile (· = "")).reverse)

def isFile (v : Volume) (path : String) : Bool :=
  match (v.place path).map v.node? with
  | .ok (some (.file _)) => true
  | _ => false

def read (v : Volume) (path : String) : Except IoCause String := do
  match v.node? (← v.place path) with
  | none => .error .notFound
  | some .directory => .error .isDirectory
  | some (.file content) =>
    match String.fromUTF8? content with
    | some text => .ok text
    | none => .error .notUtf8

/-- Puts a file in an existing directory. A path with a slash at its end never names a file. -/
def write (v : Volume) (path : String) (content : ByteArray) : Except IoCause Volume := do
  let place ← v.newPlace path
  match v.node? place.dropLast, v.node? place with
  | none, _ => .error .notFound
  | some (.file _), _ => .error .notDirectory
  | some .directory, some .directory => .error .isDirectory
  | some .directory, _ =>
    if path.endsWith "/" then .error .isDirectory else .ok (v.put place (.file content))

/-- Puts a directory in an existing one, where nothing is yet. -/
def makeDirectory (v : Volume) (path : String) : Except IoCause Volume := do
  let place ← v.newPlace path
  match v.node? place with
  | some _ => .error .alreadyExists
  | none => .ok (v.put place .directory)

def disk : Disk (StateM Volume) where
  isFile path := fun v => (v.isFile path, v)
  read path := fun v => (v.read path, v)
  write path text := fun v =>
    match v.write path text.toUTF8 with
    | .ok v' => (.ok (), v')
    | .error cause => (.error cause, v)

end Volume

end Datagram
