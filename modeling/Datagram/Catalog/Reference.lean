import Datagram.Catalog

/-!
References to components. A reference names a component by its path in the catalogue; resolving it
puts the component's fields in its place. Fields that come in this way are not resolved again.
-/

namespace Datagram

def schemaPath : List Char := "#/components/schemas/".toList

def headerPath : List Char := "#/components/headers/".toList

namespace Components

/-- The fields of the component that a path names. -/
def lookup? (c : Components) (path : String) : Option (List Field) :=
  match schemaPath.isPrefixOf? path.toList with
  | some name => (c.schemas.get? (String.ofList name)).map Component.fields
  | none =>
    match headerPath.isPrefixOf? path.toList with
    | some name => c.headers.get? (String.ofList name)
    | none => none

/-- The fields that a field stands for. An unknown reference stays. -/
def resolve (c : Components) (f : Field) : List Field := (f.target?.bind c.lookup?).getD [f]

def resolveFields (c : Components) (fields : List Field) : List Field := fields.flatMap c.resolve

def resolveLayout (c : Components) (l : Layout) : Layout :=
  ⟨c.resolveFields l.header, c.resolveFields l.payload⟩

def resolveMessage (c : Components) (m : Message) : Message :=
  { m with
    request := m.request.map c.resolveLayout
    response := m.response.map c.resolveLayout }

end Components

def Catalog.resolve (c : Catalog) : Catalog :=
  match c.components with
  | none => c
  | some components => { c with messages := c.messages.map components.resolveMessage }

end Datagram
