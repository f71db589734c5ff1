import HubRelay.Journal
import HubRelay.Ledger
import HubRelay.SlotPool
import HubRelay.Wakeup

/-! The relay and the loops it serves: what happens to a message between its slot and a loop's queue.
Nothing here runs user code. -/

set_option autoImplicit false

namespace HubRelay

-- Contents of a slot. The callback stays beside the message, out of the link's sight.
structure Parcel where
  message : Message
  callback : Option (FreeCallback Action)
  serial : Nat

def Parcel.event (k : Handle) (inst : InstanceId) (p : Parcel) : Event :=
  ⟨hostMessageKind, systemInstance, inst, .message p.message, some (.reclaim k p.serial)⟩

structure RelayTally where
  accepted : Nat := 0
  rejectedTooLarge : Nat := 0
  rejectedPermissions : Nat := 0
  rejectedPoolExhausted : Nat := 0
  rejectedByLink : Nat := 0
  completions : Nat := 0
  duplicateCompletions : Nat := 0
  callbacksInvoked : Nat := 0
  callbacksAbandoned : Nat := 0
  delivered : Nat := 0
  deferred : Nat := 0
  rejectedInbound : Nat := 0
  deferredDelivered : Nat := 0
  unknownDestination : Nat := 0
deriving DecidableEq

namespace RelayTally

def rejected (t : RelayTally) : Nat :=
  t.rejectedTooLarge + t.rejectedPermissions + t.rejectedPoolExhausted + t.rejectedByLink

def countRejection (failure : SendFailure) (t : RelayTally) : RelayTally :=
  match failure with
  | .tooLarge _ _ => { t with rejectedTooLarge := t.rejectedTooLarge + 1 }
  | .permissions _ _ => { t with rejectedPermissions := t.rejectedPermissions + 1 }
  | .poolExhausted => { t with rejectedPoolExhausted := t.rejectedPoolExhausted + 1 }
  | .refused => { t with rejectedByLink := t.rejectedByLink + 1 }

def countRouting (routing : Routing) (t : RelayTally) : RelayTally :=
  match routing with
  | .delivered => { t with delivered := t.delivered + 1 }
  | .deferred => { t with deferred := t.deferred + 1 }
  | .rejected _ => { t with rejectedInbound := t.rejectedInbound + 1 }

def countAccepted (t : RelayTally) : RelayTally := { t with accepted := t.accepted + 1 }
def countCompletion (t : RelayTally) : RelayTally := { t with completions := t.completions + 1 }
def countDuplicate (t : RelayTally) : RelayTally :=
  { t with duplicateCompletions := t.duplicateCompletions + 1 }
def countInvoked (t : RelayTally) : RelayTally := { t with callbacksInvoked := t.callbacksInvoked + 1 }
def countAbandoned (t : RelayTally) : RelayTally :=
  { t with callbacksAbandoned := t.callbacksAbandoned + 1 }
def countDeferredDelivered (t : RelayTally) : RelayTally :=
  { t with deferredDelivered := t.deferredDelivered + 1 }
def countUnknown (t : RelayTally) : RelayTally :=
  { t with unknownDestination := t.unknownDestination + 1 }

end RelayTally

structure Relay where
  settings : RelaySettings
  pool : SlotPool Parcel
  wakeClaim : WakeClaim := {}
  tally : RelayTally := {}
  -- The serial number of the next message that is offered to it, from either side.
  serial : Nat := 0

structure Hub where
  loops : List RunLoop
  -- How many of the loops, from the first, the relay knows.
  registered : Nat
  -- Is `none` once it was dropped. Callbacks already queued outlive it.
  relay : Option Relay
  ledger : Ledger := {}
  thread : Thread := mainThread
  journal : Array Note := #[]
  -- All that happened, the latest first.
  history : List Happening := []
  -- All that the loops called, each with its loop, the latest first. Nothing that runs looks back at it.
  calls : List (Nat × Upcall) := []

namespace Hub

def note (n : Note) (h : Hub) : Hub := { h with journal := h.journal.push n }

def record (x : Happening) (h : Hub) : Hub := { h with history := x :: h.history }

def call (i : Nat) (x : Upcall) (h : Hub) : Hub := { h with calls := (i, x) :: h.calls }

def modifyLoop (i : Nat) (f : RunLoop → RunLoop) (h : Hub) : Hub := { h with loops := h.loops.modify i f }

def onRelay (f : Relay → Relay) (h : Hub) : Hub := { h with relay := h.relay.map f }

def count (f : RelayTally → RelayTally) (h : Hub) : Hub :=
  h.onRelay fun r => { r with tally := f r.tally }

def passSerial (h : Hub) : Hub := h.onRelay fun r => { r with serial := r.serial + 1 }

def driven (h : Hub) : List Bool := h.loops.map (·.drivenBy h.thread)

def enqueue (i : Nat) (t : Task) (h : Hub) : Except LoopFailure Hub :=
  match h.loops[i]? with
  | none => .error .stopped
  | some l =>
      match l.enqueue t with
      | .error failure => .error failure
      | .ok l => .ok { h with loops := h.loops.set i l }

def locate (app : AppId) (h : Hub) : Option (Nat × Badge) :=
  (h.loops.take h.registered).zipIdx.findSome? fun (l, i) => (l.badge? app).map (i, ·)

def home (app : AppId) (h : Hub) : Nat := ((h.locate app).map (·.1)).getD 0

def noteDropped (callback : Option (FreeCallback Action)) (h : Hub) : Hub :=
  match callback with
  | none => h
  | some callback => h.note (.freeDropped callback.label)

def reclaim (k : Handle) (h : Hub) : Hub :=
  match h.relay with
  | none => h
  | some r =>
      match r.pool.release k with
      | .error _ => h
      | .ok (parcel, pool) =>
          let h := { h with relay := some { r with pool := pool } }
          h.noteDropped (parcel.bind (·.callback))

def discard (e : Event) (h : Hub) : Hub :=
  match e.hook with
  | none => h
  | some (.note label) => h.note (.eventFreed label)
  | some (.reclaim k _) => h.reclaim k

def discardTask (t : Task) (h : Hub) : Hub :=
  match t with
  | .event e => h.discard e
  | .job (.user label _) => h.note (.jobDropped label)
  | .job (.handBack _ _ callback _) => h.note (.freeDropped callback.label)
  | .job (.retry _ _) | .load _ _ | .unload _ | .stop => h

-- The link is done with a message. Without a callback its slot is free at once; otherwise the loop of
-- its sender, or else the first loop, hands the payload back and frees it then.
def complete (k : Handle) (h : Hub) : Hub :=
  match h.relay with
  | none => h
  | some r =>
      match r.pool.retire k with
      | none => h.count RelayTally.countDuplicate
      | some (parcel, pool) =>
          let h := { h with relay := some { r with pool := pool, tally := r.tally.countCompletion } }
          match parcel.callback with
          | none => (h.reclaim k).record (.completed parcel.serial .released)
          | some callback =>
              let i := h.home parcel.message.app
              match h.enqueue i (.job (.handBack k parcel.serial callback parcel.message.payload)) with
              | .ok h => h.record (.completed parcel.serial (.handed i))
              | .error _ =>
                  (((h.note (.freeDropped callback.label)).count RelayTally.countAbandoned).reclaim k).record
                    (.completed parcel.serial (.abandoned i))

inductive Attempt where
  | posted
  | unknown
  | refused

def attempt (k : Handle) (parcel : Parcel) (h : Hub) : Attempt × Hub :=
  match h.locate parcel.message.app with
  | none => (.unknown, h)
  | some (i, badge) =>
      let e := parcel.event k badge.inst
      match h.enqueue i (.event e) with
      | .ok h => (.posted, h.record (.posted parcel.serial i badge))
      | .error _ => (.refused, h.discard e)

def putOff (k : Handle) (serial : Nat) (h : Hub) : Routing × Hub :=
  match h.enqueue 0 (.job (.retry k serial)) with
  | .ok h => (.deferred, h)
  | .error _ => (.rejected .unavailable, h.reclaim k)

def largestArrival : Nat := 4294967295

def route (a : Arrival) (r : Relay) (h : Hub) : Routing × Hub :=
  if a.endpoint.isBroadcast then (.rejected .broadcastSource, h)
  else if largestArrival < a.payload.length then (.rejected (.tooLarge a.payload.length), h)
  else
    let parcel : Parcel := ⟨a.message, none, r.serial⟩
    match r.pool.allocate parcel with
    | none => (.rejected .poolExhausted, h)
    | some (k, pool) =>
        let h := { h with relay := some { r with pool := pool } }
        match h.attempt k parcel with
        | (.posted, h) => (.delivered, h)
        | (.refused, h) => (.rejected .unavailable, h)
        | (.unknown, h) => h.putOff k r.serial

def receive (a : Arrival) (h : Hub) : Option (Routing × Hub) :=
  h.relay.map fun r =>
    let (routing, h) := h.route a r
    (routing, ((h.count (RelayTally.countRouting routing)).record (.arrived r.serial a routing)).passSerial)

def retry (k : Handle) (h : Hub) : Bool × Hub :=
  match h.relay.bind (·.pool.live? k) with
  | none => (false, h)
  | some parcel =>
      match h.attempt k parcel with
      | (.posted, h) => (true, h.count RelayTally.countDeferredDelivered)
      | (.refused, h) => (false, h.record (.turnedAway parcel.serial))
      | (.unknown, h) =>
          (false, ((h.count RelayTally.countUnknown).reclaim k).record (.strayed parcel.serial))

-- Queues a load. The instance id is spent even if the loop refuses.
def requestLoad (i : Nat) (app : AppId) (permissions : Permissions) (program : Program Action) (h : Hub) :
    Except LoopFailure InstanceId × Hub :=
  match h.loops[i]? with
  | none => (.error .stopped, h)
  | some l =>
      let (inst, l) := l.issue
      let (entry, ledger) := h.ledger.openRow
      let badge : Badge := ⟨app, inst, permissions, entry⟩
      let h := ({ h with loops := h.loops.set i l, ledger := ledger }).record (.requested i badge)
      match h.enqueue i (.load badge program) with
      | .ok h => (.ok inst, h)
      | .error failure => (.error failure, h)

def requestLoads (i : Nat) : Nat → AppId → Reply → Hub → Reply × Hub
  | 0, _, last, h => (last, h)
  | count + 1, app, _, h =>
      let (result, h) := h.requestLoad i app Permissions.none .inert
      h.requestLoads i count (app + 1) (.loaded result)

def dropRelay (h : Hub) : Bool × Hub :=
  match h.relay with
  | none => (false, h)
  | some r => (true, (r.pool.liveValues.map (·.callback)).foldl (fun h c => h.noteDropped c) { h with relay := none })

end Hub

end HubRelay
