import Datagram.Catalog.Reference
import Datagram.Json.Parse
import Datagram.Json.Print
import Datagram.Json.Record

/-!
Catalogues in JSON. Each type is a record; what is absent is left out, and what is left out has a
default. A catalogue that is read from a text is checked, and its references are resolved.
-/

namespace Datagram

open Json (list? named? nat? ofDict ofList ofNonempty ofRecord ofText option? record? text?)

namespace BitMember

def keys : List String := ["name", "bit", "bits", "value", "description", "enum"]

/-- The name is the one key that may not be left out. -/
def ofJson? (j : Json) : Option BitMember := do
  let r ← record? keys j
  let name ← (r "name").bind text?
  let bit ← r.get? "bit" none (option? (nat? UInt32.size))
  let range ← r.get? "bits" none (option? text?)
  let value ← r.get? "value" none (option? text?)
  let description ← r.get? "description" "" text?
  let labels ← r.get? "enum" none (option? (Json.dict? text?))
  return { name, bit := bit.map UInt32.ofNat, range, value, description, labels }

def toJson (b : BitMember) : Json :=
  ofRecord
    [("name", some (ofText b.name)),
     ("bit", b.bit.map fun n => .nat n.toNat),
     ("bits", b.range.map ofText),
     ("value", b.value.map ofText),
     ("description", ofNonempty b.description),
     ("enum", b.labels.map (ofDict ofText))]

end BitMember

namespace Field

def keys : List String :=
  ["name", "type", "value", "size", "endian", "description", "format", "enum", "bits", "$ref"]

def ofJson? (j : Json) : Option Field := do
  let r ← record? keys j
  let name ← r.get? "name" "" text?
  let type ← r.get? "type" .byte (named? FieldType.ofName?)
  let value ← r.get? "value" none (option? text?)
  let size ← r.get? "size" none (option? (nat? UInt64.size))
  let endian ← r.get? "endian" .big (named? Endian.ofName?)
  let description ← r.get? "description" "" text?
  let radix ← r.get? "format" .decimal (named? Radix.ofName?)
  let labels ← r.get? "enum" none (option? (Json.dict? text?))
  let bits ← r.get? "bits" none (option? (list? BitMember.ofJson?))
  let target ← r.get? "$ref" none (option? text?)
  return {
    name, type, value, size := size.map UInt64.ofNat, endian, description, radix, labels, bits,
    target }

def toJson (f : Field) : Json :=
  ofRecord
    [("name", some (ofText f.name)),
     ("type", some (ofText f.type.name)),
     ("value", f.value.map ofText),
     ("size", f.size.map fun n => .nat n.toNat),
     ("endian", some (ofText f.endian.name)),
     ("description", ofNonempty f.description),
     ("format", some (ofText f.radix.name)),
     ("enum", f.labels.map (ofDict ofText)),
     ("bits", f.bits.map (ofList BitMember.toJson)),
     ("$ref", f.target.map ofText)]

end Field

namespace Layout

def ofJson? (j : Json) : Option Layout := do
  let r ← record? ["header", "payload"] j
  let header ← r.get? "header" [] (list? Field.ofJson?)
  let payload ← r.get? "payload" [] (list? Field.ofJson?)
  return { header, payload }

def toJson (l : Layout) : Json :=
  ofRecord
    [("header", some (ofList Field.toJson l.header)),
     ("payload", some (ofList Field.toJson l.payload))]

end Layout

namespace Endpoint

def ofJson? (j : Json) : Option Endpoint := do
  let r ← record? ["server", "ip", "port"] j
  let server ← r.get? "server" none (option? text?)
  let ip ← r.get? "ip" none (option? text?)
  let port ← r.get? "port" none (option? (nat? UInt16.size))
  return { server, ip, port := port.map UInt16.ofNat }

def toJson (e : Endpoint) : Json :=
  ofRecord
    [("server", e.server.map ofText),
     ("ip", e.ip.map ofText),
     ("port", e.port.map fun n => .nat n.toNat)]

end Endpoint

namespace Message

def keys : List String :=
  ["description", "group", "endpoint", "request", "response", "timeoutMs"]

def ofJson? (j : Json) : Option Message := do
  let r ← record? keys j
  let description ← r.get? "description" "" text?
  let group ← r.get? "group" none (option? text?)
  let endpoint ← r.get? "endpoint" none (option? Endpoint.ofJson?)
  let request ← r.get? "request" none (option? Layout.ofJson?)
  let response ← r.get? "response" none (option? Layout.ofJson?)
  let timeoutMs ← r.get? "timeoutMs" 1000 (nat? UInt64.size)
  return { description, group, endpoint, request, response, timeoutMs := UInt64.ofNat timeoutMs }

/-- A missing request is written as null. -/
def toJson (m : Message) : Json :=
  ofRecord
    [("description", ofNonempty m.description),
     ("group", m.group.map ofText),
     ("endpoint", m.endpoint.map Endpoint.toJson),
     ("request", some (m.request.elim .null Layout.toJson)),
     ("response", m.response.map Layout.toJson),
     ("timeoutMs", some (.nat m.timeoutMs.toNat))]

end Message

namespace Contact

def ofJson? (j : Json) : Option Contact := do
  let r ← record? ["name", "email"] j
  let name ← r.get? "name" "" text?
  let email ← r.get? "email" "" text?
  return { name, email }

def toJson (c : Contact) : Json :=
  ofRecord [("name", some (ofText c.name)), ("email", some (ofText c.email))]

end Contact

namespace Info

def ofJson? (j : Json) : Option Info := do
  let r ← record? ["title", "description", "version", "contact"] j
  let title ← r.get? "title" "" text?
  let description ← r.get? "description" "" text?
  let version ← r.get? "version" "" text?
  let contact ← r.get? "contact" none (option? Contact.ofJson?)
  return { title, description, version, contact }

def toJson (i : Info) : Json :=
  ofRecord
    [("title", some (ofText i.title)),
     ("description", some (ofText i.description)),
     ("version", some (ofText i.version)),
     ("contact", i.contact.map Contact.toJson)]

end Info

namespace Server

def ofJson? (j : Json) : Option Server := do
  let r ← record? ["name", "description", "ip", "port"] j
  let name ← r.get? "name" "" text?
  let description ← r.get? "description" "" text?
  let ip ← r.get? "ip" "" text?
  let port ← r.get? "port" 0 (nat? UInt16.size)
  return { name, description, ip, port := UInt16.ofNat port }

def toJson (s : Server) : Json :=
  ofRecord
    [("name", some (ofText s.name)),
     ("description", some (ofText s.description)),
     ("ip", some (ofText s.ip)),
     ("port", some (.nat s.port.toNat))]

end Server

namespace Component

def ofJson? (j : Json) : Option Component := do
  let r ← record? ["description", "fields"] j
  let description ← r.get? "description" "" text?
  let fields ← r.get? "fields" [] (list? Field.ofJson?)
  return { description, fields }

def toJson (c : Component) : Json :=
  ofRecord
    [("description", ofNonempty c.description),
     ("fields", some (ofList Field.toJson c.fields))]

end Component

namespace Components

def ofJson? (j : Json) : Option Components := do
  let r ← record? ["schemas", "headers"] j
  let schemas ← r.get? "schemas" ∅ (Json.dict? Component.ofJson?)
  let headers ← r.get? "headers" ∅ (Json.dict? (list? Field.ofJson?))
  return { schemas, headers }

def toJson (c : Components) : Json :=
  ofRecord
    [("schemas", some (ofDict Component.toJson c.schemas)),
     ("headers", some (ofDict (ofList Field.toJson) c.headers))]

end Components

namespace Catalog

def keys : List String := ["udpapi", "info", "servers", "messages", "components"]

def ofJson? (j : Json) : Option Catalog := do
  let r ← record? keys j
  let version ← r.get? "udpapi" "" text?
  let info ← r.get? "info" {} Info.ofJson?
  let servers ← r.get? "servers" [] (list? Server.ofJson?)
  let messages ← r.get? "messages" ∅ (Json.dict? Message.ofJson?)
  let components ← r.get? "components" none (option? Components.ofJson?)
  return { version, info, servers, messages, components }

def toJson (c : Catalog) : Json :=
  ofRecord
    [("udpapi", some (ofText c.version)),
     ("info", some c.info.toJson),
     ("servers", some (ofList Server.toJson c.servers)),
     ("messages", some (ofDict Message.toJson c.messages)),
     ("components", c.components.map Components.toJson)]

/-- The catalogue of a JSON text, checked and with its references resolved. -/
def ofJsonText (text : String) : Except Fault Catalog :=
  let s := text.toList
  if s.all Text.isBlank then .error .emptyInput
  else match (Json.parse? s).bind ofJson? with
    | none => .error .malformed
    | some c => c.validate.map fun _ => c.resolve

def toJsonText (c : Catalog) : String := String.ofList (Json.pretty 0 c.toJson)

end Catalog

end Datagram
