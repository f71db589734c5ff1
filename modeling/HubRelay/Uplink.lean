import HubRelay.Fifo
import HubRelay.Failure
import HubRelay.Settings

/-! The link to the host. Accepted messages wait in a bounded queue until they are taken for
transmission. A message is in transit from then on until its completion was reported. -/

set_option autoImplicit false

namespace HubRelay

structure LinkTally where
  accepted : Nat := 0
  rejected : Nat := 0
  transmitted : Nat := 0
  failed : Nat := 0
deriving DecidableEq

def LinkTally.completed (t : LinkTally) : Nat := t.transmitted + t.failed

structure Uplink where
  settings : LinkSettings
  queue : Fifo Outgoing := .empty
  inTransit : Nat := 0
  paused : Bool := false
  -- How many of the messages taken next are to fail.
  failBudget : UInt32 := 0
  shutDown : Bool := false
  exiting : Bool := false
  running : Bool := false
  received : List Delivery := []
  tally : LinkTally := {}

namespace Uplink

def idle (u : Uplink) : Bool := u.queue.length == 0 && u.inTransit == 0

-- How many of the accepted messages have left the queue: the number of the oldest that waits.
def oldest (u : Uplink) : Nat := u.tally.accepted - u.queue.length

def send (m : Outgoing) (u : Uplink) : Bool × Uplink :=
  if u.shutDown || u.settings.capacity ≤ u.queue.length then
    (false, { u with tally := { u.tally with rejected := u.tally.rejected + 1 } })
  else
    (true, { u with
      queue := u.queue.push m
      tally := { u.tally with accepted := u.tally.accepted + 1 } })

def take? (u : Uplink) : Option (Outgoing × Bool × Uplink) :=
  if u.paused then none
  else
    u.queue.pop?.map fun (m, queue) =>
      (m, 0 < u.failBudget,
        { u with
          queue := queue
          inTransit := u.inTransit + 1
          failBudget := if 0 < u.failBudget then u.failBudget - 1 else u.failBudget })

def takeAll (u : Uplink) : List Outgoing × Uplink :=
  (u.queue.toList, { u with queue := .empty, inTransit := u.inTransit + u.queue.length })

def record (m : Outgoing) (fails : Bool) (u : Uplink) : Uplink :=
  match m.delivery?, fails with
  | some delivery, false =>
      { u with
        received := u.received ++ [delivery]
        tally := { u.tally with transmitted := u.tally.transmitted + 1 } }
  | _, _ => { u with tally := { u.tally with failed := u.tally.failed + 1 } }

def reports (u : Uplink) : Nat := if u.settings.duplicates then 2 else 1

def settle (u : Uplink) : Uplink := { u with inTransit := u.inTransit - 1 }

def start (u : Uplink) : Except LinkFailure Uplink :=
  if u.running then .error .alreadyStarted
  else if u.shutDown then .error .shutDown
  else .ok { u with running := true }

def pause (u : Uplink) : Uplink := { u with paused := true }

def resume (u : Uplink) : Uplink := { u with paused := false }

-- The budget is a word: counts that add up to more than it holds wrap around.
def failNext (count : UInt32) (u : Uplink) : Uplink := { u with failBudget := u.failBudget + count }

def takeReceived (u : Uplink) : List Delivery × Uplink := (u.received, { u with received := [] })

def close (u : Uplink) : Uplink := { u with exiting := true, shutDown := true, running := false }

def hauling (u : Uplink) : Bool := u.running && !u.paused

section Listener

variable {σ : Type} (complete : Handle → σ → σ)

def reportTimes : Nat → Handle → σ → σ
  | 0, _, s => s
  | n + 1, h, s => reportTimes n h (complete h s)

def transmit (m : Outgoing) (fails : Bool) (u : Uplink) (s : σ) : Uplink × σ :=
  let u := u.record m fails
  (u.settle, reportTimes complete u.reports m.handle s)

def pump : Nat → Uplink → σ → Nat × Uplink × σ
  | 0, u, s => (0, u, s)
  | limit + 1, u, s =>
      match u.take? with
      | none => (0, u, s)
      | some (m, fails, u) =>
          let (u, s) := transmit complete m fails u s
          let (n, rest) := pump limit u s
          (n + 1, rest)

def haul (u : Uplink) (s : σ) : Uplink × σ :=
  if u.hauling then (pump complete u.queue.length u s).2 else (u, s)

def flush (u : Uplink) (s : σ) : Bool × Uplink × σ :=
  let (u, s) := haul complete u s
  (u.idle, u, s)

def failAll : List Outgoing → Uplink → σ → Uplink × σ
  | [], u, s => (u, s)
  | m :: rest, u, s =>
      let (u, s) := transmit complete m true u s
      failAll rest u s

def shutdown (u : Uplink) (s : σ) : Uplink × σ :=
  if u.shutDown then (u, s)
  else
    let (_, u, s) := flush complete u s
    let (left, u) := u.close.takeAll
    failAll complete left u s

end Listener

end Uplink

end HubRelay
