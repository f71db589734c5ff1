import HubRelay.Hub
import HubRelay.Uplink

/-! The whole hub: the relay and its loops between a link and the host's power state, and the actions
that user code takes on it. -/

set_option autoImplicit false

namespace HubRelay

inductive Link where
  | uplink (u : Uplink)
  | puppet (p : Puppet)

structure Stack where
  hub : Hub
  link : Link
  -- Told of the end of a wake cycle is the relay, where the power state takes a listener at all.
  power : HostPower Unit := {}
  names : List (String × Badge) := []
  labels : List (String × Handle) := []
  threads : Nat := 1

def assign {α : Type} (key : String) (value : α) : List (String × α) → List (String × α)
  | [] => [(key, value)]
  | (k, v) :: rest => if k == key then (key, value) :: rest else (k, v) :: assign key value rest

namespace Stack

def onHub (f : Hub → Hub) (s : Stack) : Stack := { s with hub := f s.hub }

def note (n : Note) (s : Stack) : Stack := s.onHub (·.note n)

def setUplink (u : Uplink) (s : Stack) : Stack := { s with link := .uplink u }

def setPuppet (p : Puppet) (s : Stack) : Stack := { s with link := .puppet p }

def handle? (r : HandleRef) (s : Stack) : Option Handle :=
  match r with
  | .label name => s.labels.lookup name
  | .exact k => some k

def offer (m : Outgoing) (s : Stack) : Bool × Stack :=
  match s.link with
  | .uplink u =>
      let (taken, u) := u.send m
      (taken, s.setUplink u)
  | .puppet p =>
      let s := s.onHub fun h => (p.completions m).foldl (fun h k => h.complete k) h
      (p.reaction.accepts, if p.reaction.keeps then s.setPuppet (p.keep m) else s)

def haul (s : Stack) : Stack :=
  match s.link with
  | .uplink u =>
      let (u, hub) := u.haul Hub.complete s.hub
      { s with link := .uplink u, hub := hub }
  | .puppet _ => s

def flush (s : Stack) : Bool × Stack :=
  match s.link with
  | .uplink u =>
      let (idle, u, hub) := u.flush Hub.complete s.hub
      (idle, { s with link := .uplink u, hub := hub })
  | .puppet p => (p.flushes, s)

def shutdown (s : Stack) : Stack :=
  match s.link with
  | .uplink u =>
      let (u, hub) := u.shutdown Hub.complete s.hub
      { s with link := .uplink u, hub := hub }
  | .puppet p => s.setPuppet { p with reaction := .refuse }

def reject (failure : SendFailure) (payload : Payload) (s : Stack) : Reply × Stack :=
  (.rejected failure payload, s.onHub (·.count (RelayTally.countRejection failure)))

-- The link refused. The payload goes back to the sender, unless the link completed the message first
-- and it is no longer in its slot.
def withdraw (k : Handle) (s : Stack) : Payload × Stack :=
  match s.hub.relay.bind (·.pool.live? k) with
  | some parcel => (parcel.message.payload, s.onHub (·.reclaim k))
  | none => ([], s.onHub (·.reclaim k))

def credit (badge : Badge) (woke : Bool) (s : Stack) : Stack :=
  match s.hub.relay with
  | none => s
  | some r =>
      let (claims, wakeClaim) := if woke then r.wakeClaim.claim else (false, r.wakeClaim)
      let ledger := s.hub.ledger.update badge.entry Usage.countSent
      let ledger := if claims then ledger.update badge.entry Usage.countWakeup else ledger
      let r := { r with wakeClaim := wakeClaim, tally := r.tally.countAccepted }
      s.onHub fun h => { h with relay := some r, ledger := ledger }

def sendAs (badge : Badge) (d : Dispatch Action) (r : Relay) (s : Stack) : Reply × Stack :=
  let limit := r.settings.messageLimit
  let refuse (failure : SendFailure) := (s.onHub (·.noteDropped d.free)).reject failure d.payload
  if limit < d.payload.length then refuse (.tooLarge d.payload.length limit)
  else if !badge.permissions.covers d.permissions then
    refuse (.permissions d.permissions badge.permissions)
  else
    let woke := !s.power.awake
    let m := d.message badge woke
    match r.pool.allocate ⟨m, d.free, r.serial⟩ with
    | none => refuse .poolExhausted
    | some (k, pool) =>
        let s := s.onHub fun h => { h with relay := some { r with pool := pool } }
        match s.offer ⟨k, m⟩ with
        | (true, s) => (.sent k, s.credit badge woke)
        | (false, s) =>
            let (payload, s) := s.withdraw k
            s.reject .refused payload

def send (d : Dispatch Action) (s : Stack) : Reply × Stack :=
  match s.hub.relay with
  | none => (.fault .noRelay, s)
  | some r =>
      match s.names.lookup d.sender with
      | none => (.fault .malformed, s)
      | some badge =>
          let (answer, s) := s.sendAs badge d r
          let s := s.onHub fun h => (h.record (.offered r.serial badge d answer)).passSerial
          match answer with
          | .sent k =>
              if d.brief then (.flag true, s)
              else
                (.sent k, match d.label with
                  | none => s
                  | some label => { s with labels := assign label k s.labels })
          | reply => (if d.brief then .flag false else reply, s)

def onUplink (c : UplinkCall) (u : Uplink) (s : Stack) : Reply × Stack :=
  match c with
  | .start =>
      match u.start with
      | .ok u => (.started (.ok ()), s.setUplink u)
      | .error failure => (.started (.error failure), s)
  | .pump limit =>
      let (n, u, hub) := u.pump Hub.complete limit s.hub
      (.count n, { s with link := .uplink u, hub := hub })
  | .pause => (.done, s.setUplink u.pause)
  | .resume => (.done, s.setUplink u.resume)
  | .spoil count => (.done, s.setUplink (u.failNext count))
  | .takeReceived =>
      let (log, u) := u.takeReceived
      (.received log, s.setUplink u)

def onPuppet (c : PuppetCall) (p : Puppet) (s : Stack) : Reply × Stack :=
  match c with
  | .react reaction => (.done, s.setPuppet { p with reaction := reaction })
  | .held => (.held p.kept, s)
  | .clear => (.count p.kept.length, s.setPuppet { p with kept := [] })
  | .setFlush value => (.done, s.setPuppet { p with flushes := value })

def ifRelay (f : Stack → Reply × Stack) (s : Stack) : Reply × Stack :=
  if s.hub.relay.isNone then (.fault .noRelay, s) else f s

def ifHandle (r : HandleRef) (f : Handle → Stack → Reply × Stack) (s : Stack) : Reply × Stack :=
  s.ifRelay fun s =>
    match s.handle? r with
    | none => (.fault .malformed, s)
    | some k => f k s

def ifLoop (i : Nat) (f : RunLoop → Reply × Stack) (s : Stack) : Reply × Stack :=
  match s.hub.loops[i]? with
  | none => (.fault .malformed, s)
  | some l => f l

def enqueue (i : Nat) (t : Task) (s : Stack) : Except LoopFailure Stack :=
  match s.hub.enqueue i t with
  | .ok hub => .ok { s with hub := hub }
  | .error failure => .error failure

def endCycle (s : Stack) : Stack := s.onHub (·.onRelay fun r => { r with wakeClaim := r.wakeClaim.reset })

def act (a : Action) (s : Stack) : Reply × Stack :=
  match a with
  | .load i app permissions program => s.ifLoop i fun _ =>
      let (result, hub) := s.hub.requestLoad i app permissions program
      (.loaded result, { s with hub := hub })
  | .loadMany i app count => s.ifLoop i fun _ =>
      let (reply, hub) := s.hub.requestLoads i count app .done
      (reply, { s with hub := hub })
  | .unload i app => s.ifLoop i fun _ =>
      match s.enqueue i (.unload app) with
      | .ok s => (.unloaded (.ok ()), s)
      | .error failure => (.unloaded (.error failure), s)
  | .find i app => s.ifLoop i fun l => (.found (l.find? app), s)
  | .grab i app name => s.ifLoop i fun l =>
      match l.badge? app, name with
      | none, _ => (.badge none, s)
      | some _, none => (.fault .malformed, s)
      | some badge, some name => (.badge (some badge), { s with names := assign name badge s.names })
  | .enrol name app inst permissions =>
      let (entry, ledger) := s.hub.ledger.openRow
      let s := s.onHub fun h => { h with ledger := ledger }
      (.done, { s with names := assign name ⟨app, inst, permissions, entry⟩ s.names })
  | .post i event => s.ifLoop i fun _ =>
      match s.enqueue i (.event event) with
      | .ok s => (.ok, s)
      | .error _ => (.refused event, s.onHub (·.discard event))
  | .defer i label script => s.ifLoop i fun _ =>
      match s.enqueue i (.job (.user label script)) with
      | .ok s => (.flag true, s)
      | .error _ => (.flag false, s.note (.jobDropped label))
  | .stop i elsewhere => s.ifLoop i fun _ =>
      (.done, s.onHub fun h => h.modifyLoop i (·.stop (if elsewhere then none else some h.thread)))
  | .send dispatch => s.send dispatch
  | .complete r => s.ifHandle r fun k s => (.done, s.onHub (·.complete k))
  | .retry r => s.ifHandle r fun k s =>
      let (delivered, hub) := s.hub.retry k
      (.flag delivered, { s with hub := hub })
  | .deliver arrival viaLink =>
      match s.hub.receive arrival with
      | some (routing, hub) => (.routed (some routing), { s with hub := hub })
      | none => (if viaLink then .routed none else .fault .noRelay, s)
  | .resetClaim => s.ifRelay fun s => (.done, s.endCycle)
  | .shutdown => s.ifRelay fun s => (.done, s.shutdown)
  | .flush => s.ifRelay fun s =>
      let (flushed, s) := s.flush
      (.flag flushed, s)
  | .suspend =>
      let (listener, power) := s.power.suspend
      let s := { s with power := power }
      (.done, if listener.isSome then s.endCycle else s)
  | .wake => (.done, { s with power := s.power.wake })
  | .uplink call =>
      match s.link with
      | .uplink u => s.onUplink call u
      | .puppet _ => (.fault .malformed, s)
  | .puppet call =>
      match s.link with
      | .uplink _ => (.fault .malformed, s)
      | .puppet p => s.onPuppet call p
  | .malformed toRelay =>
      if toRelay then s.ifRelay fun s => (.fault .malformed, s) else (.fault .malformed, s)

def perform : Script → Stack → Stack
  | [], s => s
  | a :: rest, s =>
      let (reply, s) := s.act a
      perform rest (s.note (.answered reply))

end Stack

end HubRelay
