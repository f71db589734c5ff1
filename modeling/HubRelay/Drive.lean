import HubRelay.Script.Weight
import HubRelay.Stack

/-! Driving a loop: its tasks in order, and the user code they run. A drive is cut off by the weight of
the stack, which each task lessens. -/

set_option autoImplicit false

namespace HubRelay

def Job.weight : Job → Nat
  | .user _ script => Script.weight script
  | .handBack _ _ callback _ => Script.weight callback.script
  | .retry _ _ => 1

def Task.weight : Task → Nat
  | .job j => j.weight + 1
  | .load _ program => program.weight + 1
  | .event _ | .unload _ | .stop => 1

def RunLoop.weight (l : RunLoop) : Nat :=
  total (l.queue.toList.map Task.weight) + total (l.apps.map (·.program.weight))

def Relay.weight (r : Relay) : Nat :=
  total (r.pool.liveValues.map fun p => FreeCallback.weight? p.callback)

def Hub.weight (h : Hub) : Nat :=
  total (h.loops.map RunLoop.weight) + (h.relay.map Relay.weight).getD 0

namespace Stack

def weight (s : Stack) : Nat := s.hub.weight

def modifyLoop (i : Nat) (f : RunLoop → RunLoop) (s : Stack) : Stack := s.onHub (·.modifyLoop i f)

def loop? (i : Nat) (s : Stack) : Option RunLoop := s.hub.loops[i]?

def next? (i : Nat) (s : Stack) : Option (Task × Stack) :=
  (s.loop? i).bind RunLoop.next? |>.map fun (t, l) =>
    (t, s.onHub fun h => { h with loops := h.loops.set i l })

end Stack

-- What a loop has still to do for a task, once the user code that the task runs has returned.
inductive Epilogue where
  | nothing
  | install (badge : Badge) (program : Program Action)
  | consume (e : Event)
  | countJob
  | giveBack (handle : Handle)

namespace Stack

def noteStart (i : Nat) (badge : Badge) (program : Program Action) (s : Stack) : Stack :=
  match program, s.loop? i with
  | .scripted _ _ _ _, some l => s.note (.started badge l.settings.name (l.drivenBy s.hub.thread))
  | _, _ => s

def noteEvent (badge : Badge) (program : Program Action) (e : Event) (s : Stack) : Stack :=
  match program with
  | .scripted _ _ _ _ => s.note (.handled badge e)
  | .plain => s.note (.handledPlain badge e.kind)
  | .inert => s

def noteEnd (a : Loaded) (s : Stack) : Stack :=
  match a.program with
  | .scripted _ _ _ _ => s.note (.ended a.badge)
  | _ => s

def startLoad (i : Nat) (badge : Badge) (program : Program Action) (s : Stack) : Script × Epilogue × Stack :=
  match (s.loop? i).bind (·.badge? badge.app) with
  | some _ => ([], .nothing, s)
  | none =>
      (program.startScript, .install badge program,
        (s.noteStart i badge program).onHub (·.call i (.start badge program)))

def startEvent (i : Nat) (e : Event) (s : Stack) : Script × Epilogue × Stack :=
  let s := s.modifyLoop i RunLoop.freeEvent
  match (s.loop? i).bind (·.loaded? e.target) with
  | none =>
      let s := (s.modifyLoop i RunLoop.countDropped).onHub (·.call i (.drop e))
      ([], .nothing, s.onHub fun h => (h.record (.missed i e)).discard e)
  | some ⟨badge, program⟩ =>
      let s := s.modifyLoop i (·.setProgram badge.inst program.nextScript.2)
      (program.nextScript.1, .consume e, (s.noteEvent badge program e).onHub fun h =>
        (h.record (.passed i badge e)).call i (.handle badge program e))

def startUnload (i : Nat) (app : AppId) (s : Stack) : Script × Epilogue × Stack :=
  match (s.loop? i).bind (·.badge? app) with
  | none => ([], .nothing, s)
  | some badge =>
      let s := s.modifyLoop i (·.strike app)
      match (s.loop? i).bind (·.loaded? badge.inst) with
      | none => ([], .nothing, s)
      | some a =>
          (a.program.endScript, .nothing,
            ((s.modifyLoop i (·.evict badge.inst)).noteEnd a).onHub (·.call i (.close a.badge a.program)))

def startJob (j : Job) (s : Stack) : Script × Epilogue × Stack :=
  match j with
  | .user label script => (script, .countJob, s.note (.ran label s.hub.driven))
  | .handBack k serial callback payload =>
      (callback.script, .giveBack k,
        (s.note (.freed callback.label payload s.hub.driven)).onHub (·.record (.freed serial callback payload)))
  | .retry k _ => ([], .countJob, s.onHub fun h => (h.retry k).2)

def startTask (i : Nat) (t : Task) (s : Stack) : Script × Epilogue × Stack :=
  match t with
  | .event e => s.startEvent i e
  | .job j => s.startJob j
  | .load badge program => s.startLoad i badge program
  | .unload app => s.startUnload i app
  | .stop => ([], .nothing, s)

def finishTask (i : Nat) (rest : Epilogue) (s : Stack) : Stack :=
  match rest with
  | .nothing => s
  | .install badge program =>
      let s := if program.starts then s.modifyLoop i (·.install ⟨badge, program.afterStart⟩) else s
      s.onHub (·.call i (.answer badge program.starts))
  | .consume e => (s.modifyLoop i RunLoop.countDelivered).onHub (·.discard e)
  | .countJob => s.modifyLoop i RunLoop.countJob
  | .giveBack k => (s.onHub fun h => (h.count RelayTally.countInvoked).reclaim k).modifyLoop i RunLoop.countJob

def runTask (i : Nat) (t : Task) (s : Stack) : Stack :=
  let (script, rest, s) := s.startTask i t
  (s.perform script).finishTask i rest

def occupy (i : Nat) (s : Stack) : Stack := s.modifyLoop i (·.occupy s.hub.thread)

def runOnce (i : Nat) (s : Stack) : Bool × Stack :=
  match s.next? i with
  | none => (false, s)
  | some (t, s) => (true, s.runTask i t)

def runMany (i : Nat) : Nat → Nat → Stack → Nat × Stack
  | 0, done, s => (done, s)
  | fuel + 1, done, s =>
      match s.runOnce i with
      | (false, s) => (done, s)
      | (true, s) => runMany i fuel (done + 1) s

def runIdle (i : Nat) (s : Stack) : Nat × Stack := s.runMany i (s.weight + 1) 0

def dropEvent (i : Nat) (e : Event) (s : Stack) : Stack :=
  let s := (s.modifyLoop i fun l => l.freeEvent.countDropped).onHub (·.call i (.drop e))
  s.onHub fun h => (h.record (.drained i e)).discard e

def discharge (i : Nat) : Nat → Stack → Stack
  | 0, s => s
  | fuel + 1, s =>
      match s.next? i with
      | none => s
      | some (.job j, s) => discharge i fuel (s.runTask i (.job j))
      | some (.event e, s) =>
          discharge i fuel (s.dropEvent i e)
      | some (_, s) => discharge i fuel s

def shut (i : Nat) (s : Stack) : Stack := s.modifyLoop i RunLoop.shut

def leaving (i : Nat) (s : Stack) : List Loaded := ((s.loop? i).map (·.leaving)).getD []

def quit (i place : Nat) (s : Stack) : Script × Stack :=
  let left := s.modifyLoop i (·.dismiss place)
  match (s.leaving i)[place]? with
  | none => ([], left)
  | some a => (a.program.endScript, (left.noteEnd a).onHub (·.call i (.close a.badge a.program)))

def endApp (i place : Nat) (s : Stack) : Stack :=
  let (script, s) := s.quit i place
  s.perform script

def endApps (i : Nat) : Nat → Stack → Stack
  | 0, s => s
  | n + 1, s => endApps i n (s.endApp i 0)

def clearRoster (i : Nat) (s : Stack) : Stack := s.modifyLoop i fun l => { l with roster := [] }

def detach (i : Nat) (s : Stack) : Stack := s.modifyLoop i fun l => { l with attached := false }

def close (i : Nat) (s : Stack) : Stack :=
  let s := s.shut i
  let s := (s.endApps i (s.leaving i).length).clearRoster i
  (s.discharge i (s.weight + 1)).detach i

inductive Ending where
  | closed
  | waiting
deriving DecidableEq

def stopRequested (i : Nat) (s : Stack) : Bool := ((s.loop? i).map (·.stopRequested)).getD false

def runFor (i : Nat) : Nat → Stack → Ending × Stack
  | 0, s => (.waiting, s)
  | fuel + 1, s =>
      match s.next? i with
      | none => (.waiting, s)
      | some (.stop, s) => (.closed, s.close i)
      | some (t, s) =>
          let s := s.runTask i t
          if s.stopRequested i then (.closed, s.close i)
          else runFor i fuel s

def run (i : Nat) (s : Stack) : Ending × Stack := s.runFor i (s.weight + 1)

-- Drops a loop as it stands: what is queued is dropped in order, the nanoapps are not ended, and the
-- roster stays.
def dropLoop (i : Nat) (s : Stack) : Stack :=
  let queued := ((s.loop? i).map (·.queue.toList)).getD []
  let s := s.modifyLoop i fun l => { l with queue := .empty, apps := [], attached := false }
  s.onHub fun h => queued.foldl (fun h t => h.discardTask t) h

end Stack

end HubRelay
