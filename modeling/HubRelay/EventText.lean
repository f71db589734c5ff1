import HubRelay.Script

/-! The one-line text of an event, for a log. -/

set_option autoImplicit false

namespace HubRelay

def recordText (name : String) (fields : List (String × String)) : String :=
  name ++ " \x7b " ++ ", ".intercalate (fields.map fun (field, text) => field ++ ": " ++ text) ++ " \x7d"

def wrapText (name body : String) : String := name ++ "(" ++ body ++ ")"

def boolText (b : Bool) : String := if b then "true" else "false"

def Payload.text (p : Payload) : String := "[" ++ ", ".intercalate (p.map (·.toNat.repr)) ++ "]"

def Endpoint.logText (e : Endpoint) : String := wrapText "HostEndpoint" e.code.toNat.repr

def Permissions.logText (p : Permissions) : String := wrapText "Permissions" p.bits.toNat.repr

def Header.text : Header → String
  | .fromHost header =>
      wrapText "FromHost" (recordText "FromHostData"
        [("message_type", header.kind.toNat.repr), ("host_endpoint", header.endpoint.logText)])
  | .toHost header =>
      wrapText "ToHost" (recordText "ToHostData"
        [("message_type", header.kind.toNat.repr),
          ("app_permissions", header.appPermissions.logText),
          ("message_permissions", header.messagePermissions.logText),
          ("host_endpoint", header.endpoint.logText),
          ("woke_host", boolText header.woke)])

def Message.text (m : Message) : String :=
  recordText "HostMessage"
    [("app_id", m.app.toNat.repr), ("message", Payload.text m.payload), ("data", m.header.text)]

def Content.text : Content → String
  | .empty => "Empty"
  | .value n => wrapText "Value" n.toNat.repr
  | .message m => wrapText "MessageFromHost" m.text

def Event.text (e : Event) : String :=
  recordText "Event"
    [("event_type", e.kind.toNat.repr),
      ("sender_instance_id", e.sender.toNat.repr),
      ("target_instance_id", e.target.toNat.repr),
      ("data", e.content.text),
      ("has_free", boolText e.hook.isSome)]

def Event.message? (e : Event) : Option Message :=
  match e.content with
  | .message m => some m
  | _ => none

end HubRelay
