import HubRelay.RunLoop

/-! What an action answers, what user code notes while it runs, and what happens to messages meanwhile. -/

set_option autoImplicit false

namespace HubRelay

inductive Fault where
  | malformed
  | noRelay
  | noLoop
  | noListener
deriving DecidableEq

inductive Reply where
  | done
  | ok
  | bound
  | flag (value : Bool)
  | count (n : Nat)
  | loaded (result : Except LoopFailure InstanceId)
  | unloaded (result : Except LoopFailure Unit)
  | found (inst : Option InstanceId)
  | badge (badge : Option Badge)
  | refused (event : Event)
  | sent (handle : Handle)
  | rejected (failure : SendFailure) (payload : Payload)
  -- Holds `none` where no listener takes messages from the host.
  | routed (routing : Option Routing)
  | started (result : Except LinkFailure Unit)
  | received (log : List Delivery)
  | held (messages : List Outgoing)
  | ran (thread : String)
  | fault (f : Fault)

inductive Note where
  | started (badge : Badge) (loop : String) (onLoop : Bool)
  | handled (badge : Badge) (event : Event)
  | handledPlain (badge : Badge) (kind : UInt16)
  | ended (badge : Badge)
  | eventFreed (label : String)
  | ran (label : String) (onLoop : List Bool)
  | jobDropped (label : String)
  | freed (label : String) (payload : Payload) (onLoop : List Bool)
  | freeDropped (label : String)
  | answered (reply : Reply)

inductive Completion where
  | released
  | handed (loop : Nat)
  -- The loop had stopped: the callback was dropped and the slot is free.
  | abandoned (loop : Nat)
deriving DecidableEq

/-- What happens to messages and to nanoapps. A message goes by its serial number. Nothing that runs
looks back at any of it. -/
inductive Happening where
  -- A nanoapp asked to send a message, and was answered.
  | offered (serial : Nat) (badge : Badge) (dispatch : Dispatch Action) (answer : Reply)
  | completed (serial : Nat) (fate : Completion)
  | freed (serial : Nat) (callback : FreeCallback Action) (payload : Payload)
  | arrived (serial : Nat) (arrival : Arrival) (routing : Routing)
  | posted (serial : Nat) (loop : Nat) (badge : Badge)
  | strayed (serial : Nat)
  -- A retry found a loop, and that loop took no event.
  | turnedAway (serial : Nat)
  | passed (loop : Nat) (badge : Badge) (event : Event)
  -- An event came to its turn with no nanoapp under the instance it was for.
  | missed (loop : Nat) (event : Event)
  -- An event was dropped by a loop that closed.
  | drained (loop : Nat) (event : Event)
  | requested (loop : Nat) (badge : Badge)

inductive Upcall where
  | start (badge : Badge) (program : Program Action)
  -- Tells whether the start came out well. Only then is the nanoapp put on the roster.
  | answer (badge : Badge) (started : Bool)
  | handle (badge : Badge) (program : Program Action) (e : Event)
  | close (badge : Badge) (program : Program Action)
  -- An event comes to its turn with no nanoapp there, or is swept away as the loop closes.
  | drop (e : Event)

namespace Note

def endsBefore (a b : Badge) : Bool :=
  a.inst < b.inst || (a.inst == b.inst && a.app <= b.app)

def placeEnd (badge : Badge) : List Note → List Note
  | .ended other :: rest =>
      if endsBefore badge other then .ended badge :: .ended other :: rest
      else .ended other :: placeEnd badge rest
  | notes => .ended badge :: notes

-- Nanoapps that end together have no order among them: each run of adjacent ends is listed by
-- instance id.
def arrangeEnds : List Note → List Note
  | [] => []
  | .ended badge :: rest => placeEnd badge (arrangeEnds rest)
  | note :: rest => note :: arrangeEnds rest

end Note

end HubRelay
