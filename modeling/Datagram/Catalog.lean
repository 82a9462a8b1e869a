import Datagram.Fault
import Datagram.Layout

/-!
A catalogue of messages: their layouts, the servers they are sent to, and components, named lists of
fields that layouts refer to.
-/

namespace Datagram

structure Contact where
  name : String := ""
  email : String := ""
  deriving DecidableEq

structure Info where
  title : String := ""
  description : String := ""
  version : String := ""
  contact : Option Contact := none
  deriving DecidableEq

structure Server where
  name : String := ""
  description : String := ""
  ip : String := ""
  port : UInt16 := 0
  deriving DecidableEq

/-- A server by name, or an address. -/
structure Endpoint where
  server : Option String := none
  ip : Option String := none
  port : Option UInt16 := none
  deriving DecidableEq

structure Message where
  description : String := ""
  group : Option String := none
  endpoint : Option Endpoint := none
  request : Option Layout := none
  response : Option Layout := none
  timeoutMs : UInt64 := 1000
  deriving DecidableEq

structure Component where
  description : String := ""
  fields : List Field := []
  deriving DecidableEq

structure Components where
  schemas : Dict Component := ∅
  headers : Dict (List Field) := ∅
  deriving DecidableEq

structure Catalog where
  version : String := ""
  info : Info := {}
  servers : List Server := []
  messages : Dict Message := ∅
  components : Option Components := none
  deriving DecidableEq

/-- The version of the notation that new catalogues name. -/
def currentVersion : String := "1.0"

def Components.isEmpty (c : Components) : Bool := c.schemas.isEmpty && c.headers.isEmpty

namespace Message

/-- A message with a request and nothing else. -/
def ofRequest (request : Layout) : Message := { request := some request }

end Message

namespace Catalog

def message? (c : Catalog) (name : String) : Option Message := c.messages.get? name

def server? (c : Catalog) (name : String) : Option Server := c.servers.find? (·.name = name)

def messagesInGroup (c : Catalog) (group : String) : List (String × Message) :=
  c.messages.entries.filter fun e => e.2.group = some group

/-- The address of a message: its own, if both parts of it are there, else that of its server. -/
def address? (c : Catalog) (m : Message) : Option (String × UInt16) :=
  m.endpoint.bind fun e =>
    match e.ip, e.port with
    | some ip, some port => some (ip, port)
    | _, _ => (e.server.bind c.server?).map fun s => (s.ip, s.port)

/-- A catalogue has a title, and each message has a request. -/
def validate (c : Catalog) : Except Fault Unit :=
  if c.info.title.toList.all Text.isBlank then .error (.invalid .blankTitle)
  else match c.messages.entries.find? (·.2.request.isNone) with
    | some e => .error (.invalid (.missingRequest e.1))
    | none => .ok ()

def requestLayout (c : Catalog) (name : String) : Except Fault Layout :=
  match (c.message? name).bind Message.request with
  | some l => .ok l
  | none => .error (.invalid (.unknownMessage name))

def responseLayout (c : Catalog) (name : String) : Except Fault Layout :=
  match c.message? name with
  | none => .error (.invalid (.unknownMessage name))
  | some m =>
    match m.response with
    | some l => .ok l
    | none => .error (.invalid (.missingResponse name))

end Catalog

/-- A message that shows how a catalogue looks. -/
def Catalog.sample : Catalog :=
  let header :=
    [((Field.new "MsgID" (.scalar (.int false .w16))).withValue "1").withRadix .hex
        |>.withDescription "Message identifier",
      (Field.new "Length" (.scalar (.int false .w16))).withDescription "Payload length"]
  let payload := [(Field.new "Sequence" (.scalar (.int false .w32))).withValue "0"]
  { version := currentVersion
    info := { title := "New UDP API", version := "1.0.0", contact := some {} }
    servers := [{ name := "local", description := "Loopback", ip := "127.0.0.1", port := 5000 }]
    messages := Dict.empty.insert "ping"
      { Message.ofRequest ⟨header, payload⟩ with description := "Connectivity check" } }

end Datagram
