import HubRelay.Fifo
import HubRelay.Failure
import HubRelay.Script
import HubRelay.Settings

/-! One single-threaded loop and its one queue of tasks. Events count against a capacity, the other
tasks do not. A nanoapp is on the roster only once its load task has run, so whatever is queued after a
load request finds it there. -/

set_option autoImplicit false

namespace HubRelay

abbrev Thread := Nat

def mainThread : Thread := 0

inductive Job where
  | user (label : String) (script : Script)
  -- Hands the payload of a completed message back to its sender, then frees its slot.
  | handBack (handle : Handle) (serial : Nat) (callback : FreeCallback Action) (payload : Payload)
  -- Offers a message from the host again, after the loads queued before.
  | retry (handle : Handle) (serial : Nat)

inductive Task where
  | event (e : Event)
  | job (j : Job)
  | load (badge : Badge) (program : Program Action)
  | unload (app : AppId)
  | stop

def Task.isEvent : Task → Bool
  | .event _ => true
  | _ => false

structure Loaded where
  badge : Badge
  program : Program Action

structure LoopTally where
  delivered : Nat := 0
  dropped : Nat := 0
  jobsRun : Nat := 0
deriving DecidableEq

structure RunLoop where
  settings : LoopSettings
  queue : Fifo Task := .empty
  queuedEvents : Nat := 0
  roster : List Badge := []
  apps : List Loaded := []
  -- The nanoapps that a closing loop has still to end.
  leaving : List Loaded := []
  nextInst : InstanceId := 1
  owner : Option Thread := none
  stopRequested : Bool := false
  stopped : Bool := false
  attached : Bool := true
  tally : LoopTally := {}

namespace RunLoop

def pending (l : RunLoop) : Nat := l.queue.length

def badge? (app : AppId) (l : RunLoop) : Option Badge := l.roster.find? (·.app == app)

def find? (app : AppId) (l : RunLoop) : Option InstanceId := (l.badge? app).map (·.inst)

def drivenBy (thread : Thread) (l : RunLoop) : Bool := l.owner == some thread

def issue (l : RunLoop) : InstanceId × RunLoop :=
  let id := if l.nextInst == systemInstance then 1 else l.nextInst
  (id, { l with nextInst := id + 1 })

def enqueue (t : Task) (l : RunLoop) : Except LoopFailure RunLoop :=
  if l.stopped then .error .stopped
  else if t.isEvent && !(l.queuedEvents < l.settings.eventCapacity) then .error .queueFull
  else if !l.attached then .error .stopped
  else
    .ok { l with
      queue := l.queue.push t
      queuedEvents := if t.isEvent then l.queuedEvents + 1 else l.queuedEvents }

-- The thread that drives the loop ends it after the current task; any other thread queues a stop
-- behind the tasks already there.
def stop (caller : Option Thread) (l : RunLoop) : RunLoop :=
  if caller.isSome && l.owner == caller then { l with stopRequested := true }
  else if l.attached then { l with queue := l.queue.push .stop }
  else l

def occupy (thread : Thread) (l : RunLoop) : RunLoop := { l with owner := some thread }

def next? (l : RunLoop) : Option (Task × RunLoop) :=
  l.queue.pop?.map fun (t, queue) => (t, { l with queue := queue })

def freeEvent (l : RunLoop) : RunLoop := { l with queuedEvents := l.queuedEvents - 1 }

def countDelivered (l : RunLoop) : RunLoop :=
  { l with tally := { l.tally with delivered := l.tally.delivered + 1 } }

def countDropped (l : RunLoop) : RunLoop :=
  { l with tally := { l.tally with dropped := l.tally.dropped + 1 } }

def countJob (l : RunLoop) : RunLoop :=
  { l with tally := { l.tally with jobsRun := l.tally.jobsRun + 1 } }

def loaded? (inst : InstanceId) (l : RunLoop) : Option Loaded := l.apps.find? (·.badge.inst == inst)

def placeApp (a : Loaded) : List Loaded → List Loaded
  | [] => [a]
  | b :: rest =>
      if a.badge.inst < b.badge.inst then a :: b :: rest
      else if a.badge.inst == b.badge.inst then a :: rest
      else b :: placeApp a rest

def install (a : Loaded) (l : RunLoop) : RunLoop :=
  { l with roster := a.badge :: l.roster, apps := placeApp a l.apps }

def setProgram (inst : InstanceId) (program : Program Action) (l : RunLoop) : RunLoop :=
  { l with apps := l.apps.map fun a => if a.badge.inst == inst then { a with program := program } else a }

def strike (app : AppId) (l : RunLoop) : RunLoop :=
  { l with roster := l.roster.filter (·.app != app) }

def shut (l : RunLoop) : RunLoop := { l with stopped := true, apps := [], leaving := l.apps }

def dismiss (place : Nat) (l : RunLoop) : RunLoop := { l with leaving := l.leaving.eraseIdx place }

def evict (inst : InstanceId) (l : RunLoop) : RunLoop :=
  { l with apps := l.apps.filter (·.badge.inst != inst) }

end RunLoop

end HubRelay
