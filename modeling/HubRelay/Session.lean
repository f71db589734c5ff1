import HubRelay.Drive

/-! Building a hub, and the steps that are taken on it from the outside. Between two steps a transport
thread has caught up with what is queued for the host. -/

set_option autoImplicit false

namespace HubRelay

structure Blueprint where
  settings : RelaySettings := {}
  link : Option Link
  power : Option (HostPower Unit)
  loops : List LoopSettings
  -- The relay knows this many of the loops, from the first.
  registered : Nat

namespace Blueprint

def build (b : Blueprint) : Except BuildFailure Stack :=
  match b.link, b.power with
  | none, _ => .error .noLink
  | some _, none => .error .noPower
  | some link, some power =>
      if (b.loops.take b.registered).isEmpty then .error .noLoop
      else
        match SlotPool.create b.settings.outstanding with
        | .error cause => .error (.pool cause)
        | .ok pool =>
            let loops := b.loops.map fun settings => { settings := settings : RunLoop }
            let hub : Hub := { loops := loops, registered := b.registered, relay := some { settings := b.settings, pool := pool } }
            .ok { hub := hub, link := link, power := power }

end Blueprint

inductive Step where
  | act (a : Action)
  | runOnce (loop : Nat)
  | runIdle (loop : Nat)
  -- Queues a stop from elsewhere and runs the loop to its end, here or on a thread of its own.
  | run (loop : Nat) (spawn : Bool)
  | dropLoop (loop : Nat)
  | dropRelay

def Step.closes : Step → Bool
  | .run _ _ => true
  | _ => false

namespace Stack

def ifHeld (i : Nat) (f : RunLoop → Reply × Stack) (s : Stack) : Reply × Stack :=
  match s.loop? i with
  | none => (.fault .malformed, s)
  | some l => if l.attached then f l else (.fault .noLoop, s)

def asThread (thread : Thread) (s : Stack) : Stack :=
  { s with hub := { s.hub with thread := thread }, threads := max s.threads (thread + 1) }

def step (step : Step) (s : Stack) : Reply × Stack :=
  match step with
  | .act a => s.act a
  | .runOnce i => s.ifHeld i fun _ =>
      let (worked, s) := (s.occupy i).runOnce i
      (.flag worked, s)
  | .runIdle i => s.ifHeld i fun _ =>
      let (n, s) := (s.occupy i).runIdle i
      (.count n, s)
  | .run i spawn => s.ifHeld i fun l =>
      let s := s.modifyLoop i (·.stop none)
      if spawn then (.ran l.settings.name, (((s.asThread s.threads).occupy i).run i).2)
      else (.done, ((s.occupy i).run i).2)
  | .dropLoop i => s.ifHeld i fun _ => (.done, s.dropLoop i)
  | .dropRelay =>
      let (dropped, hub) := s.hub.dropRelay
      (.flag dropped, { s with hub := hub })

def advance (step : Step) (s : Stack) : Reply × List Note × Stack :=
  let (reply, s) := (s.asThread mainThread).step step
  let s := s.haul
  let notes := s.hub.journal.toList
  let notes := if step.closes then Note.arrangeEnds notes else notes
  (reply, notes, s.onHub fun h => { h with journal := #[] })

end Stack

end HubRelay
