import HubRelay.Proofs.Loop.Drives

/-! What a loop has its nanoapps do, and the code that runs then. -/

set_option autoImplicit false

namespace HubRelay

namespace Upcall

def event? : Upcall → Option Event
  | .handle _ _ e | .drop e => some e
  | _ => none

def script : Upcall → Script
  | .start _ program => program.startScript
  | .handle _ program _ => program.nextScript.1
  | .close _ program => program.endScript
  | .answer _ _ | .drop _ => []

def concerns (badge : Badge) : Upcall → Bool
  | .start b _ | .answer b _ | .handle b _ _ | .close b _ => b == badge
  | .drop e => e.target == badge.inst

def isStart : Upcall → Bool
  | .start _ _ => true
  | _ => false

def isStarted : Upcall → Bool
  | .answer _ started => started
  | _ => false

def isClose : Upcall → Bool
  | .close _ _ => true
  | _ => false

end Upcall

theorem Hub.callsOn_same (i : Nat) (h h' : Hub) (same : h'.calls = h.calls) : h'.callsOn i = h.callsOn i := by
  rw [callsOn, same, callsOn]

theorem Hub.callsOn_discard (i : Nat) (h : Hub) (e : Event) : (h.discard e).callsOn i = h.callsOn i := by
  unfold discard
  split
  · rfl
  · rfl
  · next k n _ =>
      obtain ⟨journal, reclaimed⟩ := h.reclaim_cases k
      rw [reclaimed]
      rfl

namespace Stack

variable (i : Nat)

def Calls (script : Script) (s s' : Stack) : Prop :=
  ∃ made, s'.hub.callsOn i = s.hub.callsOn i ++ made ∧ script = made.flatMap Upcall.script

theorem calls_none (s s' : Stack) (same : s'.hub.calls = s.hub.calls) : Calls i [] s s' :=
  ⟨[], (Hub.callsOn_same i s.hub s'.hub same).trans (List.append_nil _).symm, rfl⟩

theorem calls_one (x : Upcall) (s s' : Stack) (same : s'.hub.calls = s.hub.calls) :
    Calls i x.script s (s'.onHub (·.call i x)) := by
  refine ⟨[x], ?_, (List.append_nil _).symm⟩
  rw [← Hub.callsOn_same i s.hub s'.hub same]
  exact s'.hub.callsOn_call i x

theorem calls_event (e : Event) (s : Stack) : Calls i (s.startEvent i e).1 s (s.startEvent i e).2.2 := by
  unfold startEvent
  simp only
  split
  · let dropped := (s.modifyLoop i RunLoop.freeEvent).modifyLoop i RunLoop.countDropped
    obtain ⟨made, calls, script⟩ := calls_one i (.drop e) s dropped rfl
    refine ⟨made, ?_, script⟩
    rw [← calls]
    exact Hub.callsOn_discard i ((dropped.hub.call i (.drop e)).record (.missed i e)) e
  · next badge program _ =>
      cases program <;> exact calls_one i (.handle badge _ e) s (onHub (·.record (.passed i badge e)) _) rfl

theorem calls_load (badge : Badge) (program : Program Action) (s : Stack) :
    Calls i (s.startLoad i badge program).1 s (s.startLoad i badge program).2.2 := by
  unfold startLoad
  split
  · exact calls_none i s s rfl
  · refine calls_one i (.start badge program) s (s.noteStart i badge program) ?_
    unfold noteStart
    split <;> rfl

theorem calls_left (a : Loaded) (s s' : Stack) (same : s'.hub.calls = s.hub.calls) :
    Calls i a.program.endScript s ((s'.noteEnd a).onHub (·.call i (.close a.badge a.program))) := by
  refine calls_one i (.close a.badge a.program) s (s'.noteEnd a) (Eq.trans ?_ same)
  unfold noteEnd
  split <;> rfl

theorem calls_unload (app : AppId) (s : Stack) : Calls i (s.startUnload i app).1 s (s.startUnload i app).2.2 := by
  unfold startUnload
  split
  · exact calls_none i s s rfl
  · simp only
    split
    · exact calls_none i s _ rfl
    · next a _ => exact calls_left i a s _ rfl

theorem calls_task (t : Task) (s : Stack) (plain : t.isJob = false) :
    Calls i (s.startTask i t).1 s (s.startTask i t).2.2 := by
  cases t with
  | event e => exact calls_event i e s
  | job j => cases plain
  | load badge program => exact calls_load i badge program s
  | unload app => exact calls_unload i app s
  | stop => exact calls_none i s s rfl

theorem calls_quit (place : Nat) (s : Stack) : Calls i (s.quit i place).1 s (s.quit i place).2 := by
  unfold quit
  split
  · exact calls_none i s _ rfl
  · next a _ => exact calls_left i a s _ rfl

end Stack

end HubRelay
