import HubRelay.Envelope

/-! Why an operation was refused, and the words it is refused with. -/

set_option autoImplicit false

namespace HubRelay

inductive PoolFailure where
  | capacity (requested maximum : Nat)
  | stale (handle : Handle)
deriving DecidableEq

def PoolFailure.text : PoolFailure → String
  | .capacity requested maximum =>
      "pool capacity " ++ requested.repr ++ " must be between 1 and " ++ maximum.repr
  | .stale handle =>
      "slot " ++ handle.slot.repr ++ " generation " ++ handle.generation.toNat.repr ++ " is not allocated"

inductive SendFailure where
  | tooLarge (size limit : Nat)
  | permissions (message app : Permissions)
  | poolExhausted
  | refused
deriving DecidableEq

def SendFailure.text : SendFailure → String
  | .tooLarge size limit =>
      "message of " ++ size.repr ++ " bytes exceeds the " ++ limit.repr ++ " byte limit"
  | .permissions message app =>
      "message permissions " ++ message.text ++ " are not a subset of app permissions " ++ app.text
  | .poolExhausted => "message pool exhausted"
  | .refused => "host link refused the message"

inductive RouteFailure where
  | broadcastSource
  | tooLarge (size : Nat)
  | poolExhausted
  | unavailable
deriving DecidableEq

def RouteFailure.text : RouteFailure → String
  | .broadcastSource => "host sent a message from the broadcast endpoint"
  | .tooLarge size => "message of " ++ size.repr ++ " bytes exceeds the inbound size limit"
  | .poolExhausted => "message pool exhausted"
  | .unavailable => "no event loop accepted the message"

inductive Routing where
  | delivered
  | deferred
  | rejected (failure : RouteFailure)
deriving DecidableEq

inductive LoopFailure where
  | stopped
  | queueFull
  | alreadyLoaded (app : AppId)
  | startFailed (app : AppId)
  | spawn (cause : String)
deriving DecidableEq

def LoopFailure.text : LoopFailure → String
  | .stopped => "event loop stopped"
  | .queueFull => "event loop event queue full"
  | .alreadyLoaded app => "nanoapp " ++ app.text ++ " already loaded"
  | .startFailed app => "nanoapp " ++ app.text ++ " failed to start"
  | .spawn cause => "failed to spawn event loop thread: " ++ cause

inductive LinkFailure where
  | alreadyStarted
  | shutDown
  | spawn (cause : String)
deriving DecidableEq

def LinkFailure.text : LinkFailure → String
  | .alreadyStarted => "transport thread already running"
  | .shutDown => "host link is shut down"
  | .spawn cause => "failed to spawn transport thread: " ++ cause

inductive BuildFailure where
  | noLink
  | noPower
  | noLoop
  | pool (cause : PoolFailure)
deriving DecidableEq

def BuildFailure.chain : BuildFailure → List String
  | .noLink => ["missing host link"]
  | .noPower => ["missing power control"]
  | .noLoop => ["at least one event loop is required"]
  | .pool cause => ["failed to size message pool", cause.text]

end HubRelay
