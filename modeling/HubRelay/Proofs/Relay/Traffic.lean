import HubRelay.Proofs.Relay.Pool
import HubRelay.Proofs.Relay.Scene
import Mathlib.Data.Multiset.Filter
import Mathlib.Logic.Relation

/-! What a scene holds for messages, and the ways in which that can change. -/

set_option autoImplicit false

namespace HubRelay

-- Work for a message that holds a slot: queued on a loop or, for the last two, under way there.
inductive Errand where
  | handBack (handle : Handle) (serial : Nat) (callback : FreeCallback Action) (payload : Payload)
  | retry (handle : Handle) (serial : Nat)
  | event (handle : Handle) (serial : Nat) (e : Event)
  | giveBack (handle : Handle)
  | consume (handle : Handle) (serial : Nat)

def Task.errand? : Task → Option Errand
  | .event e =>
      match e.hook with
      | some (.reclaim k n) => some (.event k n e)
      | _ => none
  | .job (.handBack k n callback payload) => some (.handBack k n callback payload)
  | .job (.retry k n) => some (.retry k n)
  | _ => none

def Epilogue.errand? : Epilogue → Option Errand
  | .consume e =>
      match e.hook with
      | some (.reclaim k n) => some (.consume k n)
      | _ => none
  | .giveBack k => some (.giveBack k)
  | _ => none

-- What of a loop decides whether it takes tasks, and the instance id it gives next.
structure Desk where
  nextInst : InstanceId
  stopped : Bool
  attached : Bool

namespace RunLoop

def errands (i : Nat) (l : RunLoop) : Multiset (Nat × Errand) := ((l.queue.toList.filterMap Task.errand?).map (i, ·) : List _)

def Knows (badge : Badge) (l : RunLoop) : Prop :=
  badge ∈ l.roster ∨ (∃ a ∈ l.apps, a.badge = badge) ∨ ∃ program, .load badge program ∈ l.queue.toList

def desk (l : RunLoop) : Desk := ⟨l.nextInst, l.stopped, l.attached⟩

def Closed (l : RunLoop) : Prop := l.stopped = true ∨ l.attached = false

def Full (l : RunLoop) : Prop := ¬l.queuedEvents < l.settings.eventCapacity

end RunLoop

structure Traffic where
  pool : Option (SlotPool Parcel)
  serial : Nat
  abandoned : Nat
  waiting : Multiset Outgoing
  errands : Multiset (Nat × Errand)
  known : Nat → Badge → Prop
  desks : List Desk
  history : List Happening

def Link.waiting : Link → Multiset Outgoing
  | .uplink u => u.queue.toList
  | .puppet _ => 0

def handErrands (hand : List (Nat × Epilogue)) : Multiset (Nat × Errand) :=
  (hand.filterMap fun x => x.2.errand?.map (x.1, ·) : List _)

namespace Hub

def Knows (i : Nat) (badge : Badge) (h : Hub) : Prop := ∃ l, h.loops[i]? = some l ∧ l.Knows badge

def traffic (waiting : Multiset Outgoing) (hand : List (Nat × Epilogue)) (h : Hub) : Traffic where
  pool := h.relay.map (·.pool)
  serial := (h.relay.map (·.serial)).getD 0
  abandoned := (h.relay.map (·.tally.callbacksAbandoned)).getD 0
  waiting := waiting
  errands := handErrands hand + gather RunLoop.errands h.loops
  known := fun i badge => (∃ program, (i, .install badge program) ∈ hand) ∨ h.Knows i badge
  desks := h.loops.map RunLoop.desk
  history := h.history

end Hub

def Scene.traffic (c : Scene) : Traffic := c.stack.hub.traffic c.stack.link.waiting c.hand

namespace Event

def bears (k : Handle) (serial : Nat) (e : Event) : Prop := e.hook = some (.reclaim k serial)

end Event

def Happening.Idle : Happening → Prop
  | .passed _ _ e | .missed _ e | .drained _ e => ∀ k n, ¬e.bears k n
  | _ => False

def Hub.Drops (i : Nat) (e : Event) (h : Hub) (x : Happening) : Prop :=
  ∃ l, h.loops[i]? = some l ∧
    (x = .missed i e ∧ l.loaded? e.target = none ∨ x = .drained i e ∧ l.stopped = true)

/-- What a move can change in turn, `past` being the hub that it found. -/
inductive Change (past : Hub) : Traffic → Traffic → Prop
  | narrow {t : Traffic} (known : Nat → Badge → Prop) (within : ∀ i badge, known i badge → t.known i badge) :
      Change past t { t with known := known }
  | remark {t : Traffic} (x : Happening) (idle : x.Idle) : Change past t { t with history := x :: t.history }
  | shut {t : Traffic} (i : Nat) (d : Desk) (place : t.desks[i]? = some d) :
      Change past t { t with desks := t.desks.set i { d with stopped := true } }
  | detach {t : Traffic} (i : Nat) (d : Desk) (place : t.desks[i]? = some d) (stopped : d.stopped = true) :
      Change past t { t with desks := t.desks.set i { d with attached := false } }
  | request {t : Traffic} (i : Nat) (d : Desk) (badge : Badge) (known : Nat → Badge → Prop)
      (place : t.desks[i]? = some d) (issued : badge.inst = if d.nextInst == systemInstance then 1 else d.nextInst)
      (within : ∀ j b, known j b → t.known j b ∨ j = i ∧ b = badge) :
      Change past t { t with
        known := known
        desks := t.desks.set i { d with nextInst := badge.inst + 1 }
        history := .requested i badge :: t.history }
  -- A slot was taken for a message that is refused after all.
  | bounce {t : Traffic} (p next : SlotPool Parcel) (parcel : Parcel) (k : Handle) (alive : t.pool = some p)
      (allocated : p.allocate parcel = some (k, next)) : Change past t { t with pool := some (next.reclaimed k) }
  | refuse {t : Traffic} (badge : Badge) (d : Dispatch Action) (failure : SendFailure) (payload : Payload)
      (alive : t.pool.isSome) :
      Change past t { t with
        serial := t.serial + 1
        history := .offered t.serial badge d (.rejected failure payload) :: t.history }
  | accept {t : Traffic} (badge : Badge) (d : Dispatch Action) (woke : Bool) (p next : SlotPool Parcel) (k : Handle)
      (alive : t.pool = some p) (allocated : p.allocate ⟨d.message badge woke, d.free, t.serial⟩ = some (k, next)) :
      Change past t { t with
        pool := some next
        serial := t.serial + 1
        waiting := ⟨k, d.message badge woke⟩ ::ₘ t.waiting
        history := .offered t.serial badge d (.sent k) :: t.history }
  -- The link is done with a message that has no slot.
  | lose {t : Traffic} (m : Outgoing) (w : Multiset Outgoing) (waits : t.waiting = m ::ₘ w)
      (gone : ∀ p, t.pool = some p → p.live? m.handle = none) : Change past t { t with waiting := w }
  | release {t : Traffic} (m : Outgoing) (w : Multiset Outgoing) (p : SlotPool Parcel) (parcel : Parcel)
      (waits : t.waiting = m ::ₘ w) (alive : t.pool = some p) (live : p.live? m.handle = some parcel)
      (silent : parcel.callback = none) :
      Change past t { t with
        pool := some ((p.put m.handle .retiring).reclaimed m.handle)
        waiting := w
        history := .completed parcel.serial .released :: t.history }
  | hand {t : Traffic} (m : Outgoing) (w : Multiset Outgoing) (p : SlotPool Parcel) (parcel : Parcel)
      (callback : FreeCallback Action) (i : Nat) (waits : t.waiting = m ::ₘ w) (alive : t.pool = some p)
      (live : p.live? m.handle = some parcel) (heard : parcel.callback = some callback)
      (home : past.home parcel.message.app = i) :
      Change past t { t with
        pool := some (p.put m.handle .retiring)
        waiting := w
        errands := (i, .handBack m.handle parcel.serial callback parcel.message.payload) ::ₘ t.errands
        history := .completed parcel.serial (.handed i) :: t.history }
  | abandon {t : Traffic} (m : Outgoing) (w : Multiset Outgoing) (p : SlotPool Parcel) (parcel : Parcel)
      (callback : FreeCallback Action) (i : Nat) (waits : t.waiting = m ::ₘ w) (alive : t.pool = some p)
      (live : p.live? m.handle = some parcel) (heard : parcel.callback = some callback)
      (home : past.home parcel.message.app = i) (closed : ∀ l, past.loops[i]? = some l → l.Closed) :
      Change past t { t with
        pool := some ((p.put m.handle .retiring).reclaimed m.handle)
        abandoned := t.abandoned + 1
        waiting := w
        history := .completed parcel.serial (.abandoned i) :: t.history }
  | turnDown {t : Traffic} (a : Arrival) (failure : RouteFailure) (alive : t.pool.isSome) :
      Change past t { t with
        serial := t.serial + 1
        history := .arrived t.serial a (.rejected failure) :: t.history }
  | deliver {t : Traffic} (a : Arrival) (p next : SlotPool Parcel) (k : Handle) (i : Nat) (badge : Badge)
      (alive : t.pool = some p) (allocated : p.allocate ⟨a.message, none, t.serial⟩ = some (k, next))
      (located : past.locate a.app = some (i, badge)) (known : t.known i badge) :
      Change past t { t with
        pool := some next
        serial := t.serial + 1
        errands := (i, .event k t.serial (Parcel.event k badge.inst ⟨a.message, none, t.serial⟩)) ::ₘ t.errands
        history := .arrived t.serial a .delivered :: .posted t.serial i badge :: t.history }
  | putOff {t : Traffic} (a : Arrival) (p next : SlotPool Parcel) (k : Handle) (alive : t.pool = some p)
      (allocated : p.allocate ⟨a.message, none, t.serial⟩ = some (k, next)) :
      Change past t { t with
        pool := some next
        serial := t.serial + 1
        errands := (0, .retry k t.serial) ::ₘ t.errands
        history := .arrived t.serial a .deferred :: t.history }
  | repost {t : Traffic} (j n : Nat) (k : Handle) (es : Multiset (Nat × Errand)) (p : SlotPool Parcel) (parcel : Parcel)
      (i : Nat) (badge : Badge) (work : t.errands = (j, .retry k n) ::ₘ es) (alive : t.pool = some p)
      (live : p.live? k = some parcel) (located : past.locate parcel.message.app = some (i, badge))
      (known : t.known i badge) :
      Change past t { t with
        errands := (i, .event k parcel.serial (parcel.event k badge.inst)) ::ₘ es
        history := .posted parcel.serial i badge :: t.history }
  | stray {t : Traffic} (j n : Nat) (k : Handle) (es : Multiset (Nat × Errand)) (p : SlotPool Parcel) (parcel : Parcel)
      (work : t.errands = (j, .retry k n) ::ₘ es) (alive : t.pool = some p) (live : p.live? k = some parcel)
      (nowhere : past.locate parcel.message.app = none) :
      Change past t { t with
        pool := some (p.reclaimed k)
        errands := es
        history := .strayed parcel.serial :: t.history }
  | turnAway {t : Traffic} (j n : Nat) (k : Handle) (es : Multiset (Nat × Errand)) (p : SlotPool Parcel) (parcel : Parcel)
      (i : Nat) (badge : Badge) (l : RunLoop) (work : t.errands = (j, .retry k n) ::ₘ es) (alive : t.pool = some p)
      (live : p.live? k = some parcel) (located : past.locate parcel.message.app = some (i, badge))
      (place : past.loops[i]? = some l) (refuses : l.Closed ∨ l.Full) :
      Change past t { t with
        pool := some (p.reclaimed k)
        errands := es
        history := .turnedAway parcel.serial :: t.history }
  | fizzle {t : Traffic} (j n : Nat) (k : Handle) (es : Multiset (Nat × Errand))
      (work : t.errands = (j, .retry k n) ::ₘ es) (gone : ∀ p, t.pool = some p → p.live? k = none) :
      Change past t { t with errands := es }
  | free {t : Traffic} (i n : Nat) (k : Handle) (callback : FreeCallback Action) (payload : Payload)
      (es : Multiset (Nat × Errand)) (work : t.errands = (i, .handBack k n callback payload) ::ₘ es) :
      Change past t { t with
        errands := (i, .giveBack k) ::ₘ es
        history := .freed n callback payload :: t.history }
  | pass {t : Traffic} (i n : Nat) (k : Handle) (e : Event) (badge : Badge) (es : Multiset (Nat × Errand))
      (work : t.errands = (i, .event k n e) ::ₘ es) (bears : e.bears k n) (known : t.known i badge)
      (aimed : badge.inst = e.target) :
      Change past t { t with
        errands := (i, .consume k n) ::ₘ es
        history := .passed i badge e :: t.history }
  | miss {t : Traffic} (i n : Nat) (k : Handle) (e : Event) (x : Happening) (es : Multiset (Nat × Errand))
      (work : t.errands = (i, .event k n e) ::ₘ es) (bears : e.bears k n) (drops : past.Drops i e x) :
      Change past t { t with
        pool := t.pool.map (·.reclaimed k)
        errands := es
        history := x :: t.history }
  | finish {t : Traffic} (i : Nat) (k : Handle) (x : Errand) (es : Multiset (Nat × Errand))
      (work : t.errands = (i, x) ::ₘ es) (ends : x = .giveBack k ∨ ∃ n, x = .consume k n) :
      Change past t { t with pool := t.pool.map (·.reclaimed k), errands := es }

def Traffic.bereft (t : Traffic) : Traffic := { t with pool := none, serial := 0, abandoned := 0 }

abbrev Follows (past : Hub) : Traffic → Traffic → Prop := Relation.ReflTransGen (Change past)

end HubRelay
