import HubRelay.Ident

/-! Messages in either direction, and the handles that name them while they hold a slot. -/

set_option autoImplicit false

namespace HubRelay

abbrev Payload := List UInt8

structure FromHost where
  kind : UInt32
  endpoint : Endpoint
deriving DecidableEq

structure ToHost where
  kind : UInt32
  appPermissions : Permissions
  messagePermissions : Permissions
  endpoint : Endpoint
  woke : Bool
deriving DecidableEq

inductive Header where
  | fromHost (header : FromHost)
  | toHost (header : ToHost)
deriving DecidableEq

structure Message where
  -- Sender of a message to the host, destination of a message from it.
  app : AppId
  payload : Payload
  header : Header
deriving DecidableEq

namespace Message

def fromHost? (m : Message) : Option FromHost :=
  match m.header with
  | .fromHost header => some header
  | .toHost _ => none

def toHost? (m : Message) : Option ToHost :=
  match m.header with
  | .toHost header => some header
  | .fromHost _ => none

def kind (m : Message) : UInt32 :=
  match m.header with
  | .fromHost header => header.kind
  | .toHost header => header.kind

def endpoint (m : Message) : Endpoint :=
  match m.header with
  | .fromHost header => header.endpoint
  | .toHost header => header.endpoint

def size (m : Message) : Nat := m.payload.length

end Message

structure Handle where
  slot : Nat
  generation : UInt32
deriving DecidableEq

structure Outgoing where
  handle : Handle
  message : Message
deriving DecidableEq

structure Delivery where
  handle : Handle
  app : AppId
  kind : UInt32
  endpoint : Endpoint
  woke : Bool
  payload : Payload
deriving DecidableEq

def Outgoing.delivery? (m : Outgoing) : Option Delivery :=
  m.message.toHost?.map fun header =>
    ⟨m.handle, m.message.app, header.kind, header.endpoint, header.woke, m.message.payload⟩

end HubRelay
