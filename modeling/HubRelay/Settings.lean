/-! The sizes a hub is built with. -/

set_option autoImplicit false

namespace HubRelay

def defaultMessageLimit : Nat := 4096

def defaultOutstanding : Nat := 32
def defaultLinkCapacity : Nat := 64
def defaultFlushMillis : Nat := 1000
def defaultEventCapacity : Nat := 256
def defaultLoopName : String := "event-loop"

structure RelaySettings where
  outstanding : Nat := defaultOutstanding
  messageLimit : Nat := defaultMessageLimit
deriving DecidableEq

structure LinkSettings where
  capacity : Nat := defaultLinkCapacity
  flushMillis : Nat := defaultFlushMillis
  duplicates : Bool := false
deriving DecidableEq

structure LoopSettings where
  eventCapacity : Nat := defaultEventCapacity
  name : String := defaultLoopName
deriving DecidableEq

end HubRelay
