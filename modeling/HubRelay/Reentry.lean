import HubRelay.Journal
import HubRelay.Script.Weight
import HubRelay.Uplink

/-! The link with a listener that calls it again from inside a completion, to any depth. What is still
to be done is kept as an agenda of frames, innermost first, and each step replaces the first of them. -/

set_option autoImplicit false

namespace HubRelay

inductive LinkCall where
  | uplink (c : UplinkCall)
  | send (m : Outgoing)
  | flush
  | shutdown
  | deliver (arrival : Arrival)
  | bind
  | dropListener
  | malformed

inductive LinkNote where
  | completed (handle : Handle)
  | arrived (arrival : Arrival)
  | answered (reply : Reply)

-- What happens to the messages of a link. Those it accepts are numbered from 0, in the order in which
-- it accepts them. Nothing that runs looks back at any of it.
inductive LinkEvent where
  | accepted (serial : Nat) (m : Outgoing)
  | refused (m : Outgoing)
  | reported (serial : Nat) (handle : Handle)
deriving DecidableEq

-- The link and its listener. The k-th completion runs the k-th script.
structure Rig where
  link : Uplink
  bound : Bool
  listening : Bool := true
  -- Completions under way. Each keeps the listener until it has ended, dropped or not.
  held : Nat := 0
  scripts : List (List LinkCall)
  -- What the listener answers to a message from the host.
  routing : Routing
  journal : Array LinkNote := #[]
  reply : Reply := .done
  history : List LinkEvent := []

inductive Frame where
  | call (c : LinkCall)
  | answer
  | script (calls : List LinkCall)
  | pump (left sent : Nat)
  | haul
  | flushed
  | report (serial : Nat) (handle : Handle)
  | letGo
  -- The transmission is over, its completion included.
  | settle (serial : Nat)
  | close
  -- The messages are numbered from `serial` on.
  | failAll (serial : Nat) (messages : List Outgoing)

-- More than what the frame turns into weighs, and what it adds to the link's queue.
def Frame.weight : Frame → Nat
  | .call _ => 7
  | .script calls => 9 * calls.length + 1
  | .failAll _ messages => 5 * messages.length + 1
  | .close => 2
  | .answer | .pump _ _ | .haul | .flushed | .report _ _ | .letGo | .settle _ => 1

namespace Rig

def note (n : LinkNote) (r : Rig) : Rig := { r with journal := r.journal.push n }

def record (x : LinkEvent) (r : Rig) : Rig := { r with history := x :: r.history }

def answer (reply : Reply) (r : Rig) : List Frame × Rig := ([], { r with reply := reply })

def onLink (f : Uplink → Uplink) (r : Rig) : Rig := { r with link := f r.link }

def reachable (r : Rig) : Bool := r.bound && (r.listening || 0 < r.held)

def transmit (serial : Nat) (m : Outgoing) (fails : Bool) (r : Rig) : List Frame × Rig :=
  let recorded := r.onLink (·.record m fails)
  if r.reachable then
    (List.replicate r.link.reports (.report serial m.handle) ++ [.letGo, .settle serial],
      { recorded with held := r.held + 1 })
  else ([.settle serial], recorded)

-- A flush lets the transport thread catch up, unless it is in the middle of a transmission.
def catchUp (r : Rig) : List Frame :=
  if r.link.hauling && r.link.inTransit == 0 then [.haul] else []

def call (c : LinkCall) (r : Rig) : List Frame × Rig :=
  match c with
  | .uplink .start =>
      match r.link.start with
      | .ok link => { r with link := link }.answer (.started (.ok ()))
      | .error failure => r.answer (.started (.error failure))
  | .uplink (.pump limit) => ([.pump limit 0], r)
  | .uplink .pause => (r.onLink Uplink.pause).answer .done
  | .uplink .resume => (r.onLink Uplink.resume).answer .done
  | .uplink (.spoil count) => (r.onLink (·.failNext count)).answer .done
  | .uplink .takeReceived =>
      let (log, link) := r.link.takeReceived
      { r with link := link }.answer (.received log)
  | .send m =>
      let (taken, link) := r.link.send m
      let r := r.record (if taken then .accepted r.link.tally.accepted m else .refused m)
      { r with link := link }.answer (.flag taken)
  | .flush => (r.catchUp ++ [.flushed], r)
  | .shutdown => if r.link.shutDown then r.answer .done else (r.catchUp ++ [.close], r)
  | .deliver arrival =>
      if r.reachable then (r.note (.arrived arrival)).answer (.routed (some r.routing))
      else r.answer (.routed none)
  | .bind =>
      if r.listening then { r with bound := true }.answer .bound else r.answer (.fault .noListener)
  | .dropListener => { r with listening := false }.answer .done
  | .malformed => r.answer (.fault .malformed)

def step (f : Frame) (r : Rig) : List Frame × Rig :=
  match f with
  | .call c => r.call c
  | .answer => ([], r.note (.answered r.reply))
  | .script [] => ([], r)
  | .script (c :: rest) => ([.call c, .answer, .script rest], r)
  | .pump 0 sent => r.answer (.count sent)
  | .pump (left + 1) sent =>
      match r.link.take? with
      | none => r.answer (.count sent)
      | some (m, fails, link) =>
          let (frames, r) := { r with link := link }.transmit r.link.oldest m fails
          (frames ++ [.pump left (sent + 1)], r)
  | .haul =>
      if r.link.running then
        match r.link.take? with
        | none => ([], r)
        | some (m, fails, link) =>
            let (frames, r) := { r with link := link }.transmit r.link.oldest m fails
            (frames ++ [.haul], r)
      else ([], r)
  | .flushed => r.answer (.flag r.link.idle)
  | .report serial k =>
      let r := (r.note (.completed k)).record (.reported serial k)
      match r.scripts with
      | [] => ([], r)
      | script :: rest => ([.script script], { r with scripts := rest })
  | .letGo => ([], { r with held := r.held - 1 })
  | .settle _ => ([], r.onLink Uplink.settle)
  | .close =>
      let (left, link) := r.link.close.takeAll
      ([.failAll r.link.oldest left], { r with link := link })
  | .failAll _ [] => r.answer .done
  | .failAll serial (m :: rest) =>
      let (frames, r) := r.transmit serial m true
      (frames ++ [.failAll (serial + 1) rest], r)

def weight (agenda : List Frame) (r : Rig) : Nat :=
  total (agenda.map Frame.weight) + total (r.scripts.map fun s => 9 * s.length + 1)
    + 5 * r.link.queue.length

def runFor : Nat → List Frame → Rig → Rig
  | 0, _, r => r
  | _ + 1, [], r => r
  | fuel + 1, f :: rest, r =>
      let (frames, r) := r.step f
      runFor fuel (frames ++ rest) r

def run (agenda : List Frame) (r : Rig) : Rig := r.runFor (r.weight agenda + 1) agenda

def advance (c : LinkCall) (r : Rig) : Reply × List LinkNote × Rig :=
  let r := r.run [.call c]
  let reply := r.reply
  let r := if r.link.hauling then r.run [.haul] else r
  (reply, r.journal.toList, { r with journal := #[] })

end Rig

end HubRelay
