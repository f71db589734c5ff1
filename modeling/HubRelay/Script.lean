import HubRelay.Puppet

/-! What nanoapps and callbacks do: finite scripts of actions on the hub. An action takes effect at once
and runs no script; scripts that it carries run later, when the loop they wait on is driven. -/

set_option autoImplicit false

namespace HubRelay

inductive Content where
  | empty
  | value (n : UInt64)
  | message (m : Message)
deriving DecidableEq

inductive Hook where
  | note (label : String)
  -- Gives back the slot of the message from the host that the event carries.
  | reclaim (handle : Handle) (serial : Nat)
deriving DecidableEq

structure Event where
  kind : UInt16
  sender : InstanceId
  target : InstanceId
  content : Content
  hook : Option Hook
deriving DecidableEq

-- The identity of one nanoapp instance; `entry` finds its row in the ledger.
structure Badge where
  app : AppId
  inst : InstanceId
  permissions : Permissions
  entry : Nat
deriving DecidableEq

structure FreeCallback (ε : Type) where
  label : String
  script : List ε

inductive Program (ε : Type) where
  -- Notes its start, its events and its end, and runs a script at each.
  | scripted (starts : Bool) (onStart : List ε) (onEvent : List (List ε)) (onEnd : List ε)
  | plain
  -- Refuses to start, without a note.
  | inert

namespace Program

variable {ε : Type}

def starts : Program ε → Bool
  | .scripted starts _ _ _ => starts
  | .plain => true
  | .inert => false

def startScript : Program ε → List ε
  | .scripted _ onStart _ _ => onStart
  | _ => []

def afterStart : Program ε → Program ε
  | .scripted starts _ onEvent onEnd => .scripted starts [] onEvent onEnd
  | p => p

def nextScript : Program ε → List ε × Program ε
  | .scripted starts onStart (script :: rest) onEnd => (script, .scripted starts onStart rest onEnd)
  | p => ([], p)

def endScript : Program ε → List ε
  | .scripted _ _ _ onEnd => onEnd
  | _ => []

end Program

inductive HandleRef where
  | label (name : String)
  | exact (handle : Handle)

inductive UplinkCall where
  | start
  | pump (limit : Nat)
  | pause
  | resume
  -- So many of the next messages shall fail.
  | spoil (count : UInt32)
  | takeReceived

def UplinkCall.failNext (count : Nat) : UplinkCall := .spoil count.toUInt32

inductive PuppetCall where
  | react (reaction : Reaction)
  | held
  | clear
  | setFlush (value : Bool)

structure Dispatch (ε : Type) where
  sender : String
  payload : Payload
  kind : UInt32
  endpoint : Endpoint
  permissions : Permissions
  free : Option (FreeCallback ε)
  brief : Bool
  label : Option String

def Dispatch.message {ε : Type} (badge : Badge) (woke : Bool) (d : Dispatch ε) : Message :=
  ⟨badge.app, d.payload, .toHost ⟨d.kind, badge.permissions, d.permissions, d.endpoint, woke⟩⟩

structure Arrival where
  app : AppId
  kind : UInt32
  endpoint : Endpoint
  payload : Payload
deriving DecidableEq

def Arrival.message (a : Arrival) : Message := ⟨a.app, a.payload, .fromHost ⟨a.kind, a.endpoint⟩⟩

inductive Action where
  | load (loop : Nat) (app : AppId) (permissions : Permissions) (program : Program Action)
  | loadMany (loop : Nat) (app : AppId) (count : Nat)
  | unload (loop : Nat) (app : AppId)
  | find (loop : Nat) (app : AppId)
  -- Without a name, it can only tell that the app is not there.
  | grab (loop : Nat) (app : AppId) (name : Option String)
  | enrol (name : String) (app : AppId) (inst : InstanceId) (permissions : Permissions)
  | post (loop : Nat) (event : Event)
  | defer (loop : Nat) (label : String) (script : List Action)
  -- Asked for by the acting thread or, `elsewhere`, by one that drives no loop.
  | stop (loop : Nat) (elsewhere : Bool)
  | send (dispatch : Dispatch Action)
  | complete (handle : HandleRef)
  | retry (handle : HandleRef)
  | deliver (arrival : Arrival) (viaLink : Bool)
  | resetClaim
  | shutdown
  | flush
  | suspend
  | wake
  | uplink (call : UplinkCall)
  | puppet (call : PuppetCall)
  -- Cannot be understood. If it is a request to the relay, there has to be one to refuse it.
  | malformed (toRelay : Bool)

abbrev Script := List Action

end HubRelay
