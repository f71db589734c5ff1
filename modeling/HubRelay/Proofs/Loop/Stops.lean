import HubRelay.Proofs.Loop.Drives
import HubRelay.Proofs.Relay.Deferrals

/-! What becomes of a stop by the time that its loop is run. The thread that drives the loop leaves a flag, which counts
only once a task was processed; any other thread queues a task, which counts only if `run` itself takes it. -/

set_option autoImplicit false

namespace HubRelay

namespace Stage

theorem step_open (i : Nat) (m : Move) (c : Scene) (σ σ' : Stage) (step : σ.step i m c = some σ') (opened : σ'.isOpen = true) :
    σ.isOpen = true := by
  cases m with
  | take j =>
      simp only [Stage.step] at step
      split at step
      · cases σ with
        | ready | busy => rfl
        | draining =>
            simp only [begin] at step
            split at step <;> cases step
            cases opened
        | ending | sweeping | gone => cases step
      · exact Option.some.inj step ▸ opened
  | finish place =>
      simp only [Stage.step] at step
      split at step
      · cases σ <;> cases step <;> first | rfl | cases opened
      · exact Option.some.inj step ▸ opened
  | shut j =>
      simp only [Stage.step] at step
      split at step
      · cases σ <;> cases step
        rfl
      · exact Option.some.inj step ▸ opened
  | quit j | clearRoster j =>
      simp only [Stage.step] at step
      split at step
      · cases σ with
        | ending =>
            simp only [quit, clear] at step
            split at step <;> cases step
            cases opened
        | ready | busy | draining | sweeping | gone => cases step
      · exact Option.some.inj step ▸ opened
  | drop j | detach j =>
      simp only [Stage.step] at step
      split at step
      · cases σ with
        | ready | busy => rfl
        | draining =>
            simp only [drop, leave] at step
            split at step <;> cases step
            cases opened
        | ending | sweeping | gone => cases step
      · exact Option.some.inj step ▸ opened
  | act | haul | turn | note | tell | occupy | dropRelay => exact Option.some.inj step ▸ opened

theorem after_open (i : Nat) (moves : List Move) (c : Scene) (σ σ' : Stage) (after : σ.after i moves c = some σ')
    (opened : σ'.isOpen = true) : σ.isOpen = true := by
  induction moves generalizing c σ with
  | nil => exact Option.some.inj after ▸ opened
  | cons m rest ih =>
      obtain ⟨σ₁, step, later⟩ := Option.bind_eq_some_iff.mp after
      exact step_open i m c σ σ₁ step (ih (c.move m) σ₁ later)

end Stage

namespace Seat

def Live (σ : Stage) (s : Seat) : Prop := σ.isOpen = true → s.loop.attached = true ∧ s.loop.stopped = false

theorem live_turn (σ σ' : Stage) (s s' : Seat) (turn : Turn σ σ' s s') (live : s.Live σ) : s'.Live σ' := by
  intro opened
  cases turn with
  | rest => exact live opened
  | pass | miss | load | unload | strike | skip => exact live rfl
  | job j queue waits begins => exact live ((begin_load _ _ _ begins).2.2.1 ▸ opened)
  | install badge program hand held starts concludes => exact live ((conclude_load _ _ concludes).2.2.1 ▸ opened)
  | decline badge program hand held refuses concludes => exact live ((conclude_load _ _ concludes).2.2.1 ▸ opened)
  | quit hand held concludes => exact live ((conclude_load _ _ concludes).2.2.1 ▸ opened)
  | consume e hand held concludes => exact live ((conclude_load _ _ concludes).2.2.1 ▸ opened)
  | count rest hand held job concludes => exact live ((conclude_load _ _ concludes).2.2.1 ▸ opened)
  | shut | dismiss | clear | drain | drop | leave => cases opened

theorem live_grow (σ : Stage) (s s' : Seat) (grow : s.Grow s') (live : s.Live σ) : s'.Live σ := by
  intro opened
  have before := live opened
  cases grow with
  | steer | halt | request => exact before
  | accept t l plain taken =>
      rw [RunLoop.enqueue_cases t s.loop l taken]
      exact before
  | load badge program l issued taken =>
      rw [RunLoop.enqueue_cases _ _ l taken]
      exact before

end Seat

theorem Hub.dropRelay_keeps (h : Hub) : h.dropRelay.2.loops = h.loops ∧ h.dropRelay.2.registered = h.registered := by
  obtain ⟨journal, dropped⟩ := h.dropRelay_cases
  rw [dropped]
  exact ⟨rfl, rfl⟩

def Standing.Steady (s s' : Standing) : Prop :=
  s'.registered = s.registered ∧ (s'.flags = s.flags ∨ ∃ j, s'.flags = s.flags.set j true)

theorem Standing.steady_same (s s' : Standing) (same : s' = s) : s.Steady s' := same ▸ ⟨rfl, .inl rfl⟩

theorem Hub.retry_steady (k : Handle) (h : Hub) : h.standing.Steady (h.retry k).2.standing := by
  rcases standing_retry k h with ⟨-, same⟩ | ⟨-, same | same⟩ <;> rw [same] <;> exact ⟨rfl, .inl rfl⟩

theorem Stack.act_steady (a : Action) (s : Stack) : s.hub.standing.Steady (s.act a).2.hub.standing := by
  by_cases apart : a.IsApart
  · exact Standing.steady_same _ _ (standing_act a s apart)
  · cases a with
    | deliver a viaLink =>
        simp only [act]
        split
        · next routing hub received =>
            rw [Hub.standing_receive s.hub hub a routing received]
            exact ⟨rfl, .inl rfl⟩
        · exact Standing.steady_same _ _ rfl
    | retry r =>
        simp only [act, ifHandle, ifRelay]
        split
        · exact Standing.steady_same _ _ rfl
        · split
          · exact Standing.steady_same _ _ rfl
          · exact Hub.retry_steady _ s.hub
    | stop j elsewhere =>
        simp only [act, ifLoop]
        split
        · exact Standing.steady_same _ _ rfl
        · next l place =>
            simp only [onHub]
            generalize (if elsewhere then none else some s.hub.thread) = caller
            rw [Hub.standing_stop s.hub j caller l place]
            split
            · exact ⟨rfl, .inr ⟨j, rfl⟩⟩
            · exact Standing.steady_same _ _ rfl
    | _ => exact absurd trivial apart

theorem Stack.flagged_iff (i : Nat) (s : Stack) : s.stopRequested i = true ↔ s.hub.standing.flags[i]? = some true := by
  simp only [stopRequested, loop?, Hub.standing, List.getElem?_map]
  cases s.hub.loops[i]? with
  | none => simp
  | some l => simp

namespace Scene

variable (i : Nat)

theorem move_steady (m : Move) (c : Scene) : c.stack.hub.standing.Steady (c.move m).stack.hub.standing := by
  by_cases lost : m = .dropRelay
  · subst lost
    obtain ⟨loops, registered⟩ := c.stack.hub.dropRelay_keeps
    exact ⟨registered, .inl (congrArg (List.map RunLoop.stopRequested) loops)⟩
  · by_cases retried : ∃ k next, c.Retries m k next
    · obtain ⟨k, next, retries⟩ := retried
      obtain ⟨moved, waited⟩ := move_retries m c k next retries
      rw [moved, waited]
      exact Hub.retry_steady k next.hub
    · have idle : ∀ k next, ¬c.Retries m k next := fun k next retries => retried ⟨k, next, retries⟩
      cases m with
      | act a => exact Stack.act_steady a c.stack
      | _ => exact Standing.steady_same _ _ (standing_move _ c lost (fun _ same => by cases same) idle)

theorem run_steady (moves : List Move) (c : Scene) : (c.run moves).stack.hub.registered = c.stack.hub.registered := by
  induction moves generalizing c with
  | nil => rfl
  | cons m rest ih => exact (ih (c.move m)).trans (move_steady m c).1

theorem move_flagged (m : Move) (c : Scene) (flagged : c.stack.stopRequested i = true) :
    (c.move m).stack.stopRequested i = true := by
  rw [Stack.flagged_iff] at flagged ⊢
  rcases (move_steady m c).2 with same | ⟨j, same⟩
  · rw [same]
    exact flagged
  · rw [same]
    by_cases here : j = i
    · subst here
      exact List.getElem?_set_self (List.getElem?_eq_some_iff.mp flagged).1
    · rw [List.getElem?_set_ne here]
      exact flagged

theorem run_flagged (moves : List Move) (c : Scene) (flagged : c.stack.stopRequested i = true) :
    (c.run moves).stack.stopRequested i = true := by
  induction moves generalizing c with
  | nil => exact flagged
  | cons m rest ih => exact ih (c.move m) (move_flagged i m c flagged)

def ownStop (elsewhere : Bool) (c : Scene) : Bool :=
  !elsewhere && ((c.stack.loop? i).map (·.drivenBy c.stack.hub.thread)).getD false

theorem move_stop (elsewhere : Bool) (c : Scene) (l : RunLoop) (place : c.stack.loop? i = some l) (held : l.attached = true) :
    (c.move (.act (.stop i elsewhere))).stack.loop? i = some
      (if c.ownStop i elsewhere then { l with stopRequested := true } else { l with queue := l.queue.push .stop }) := by
  have here : c.stack.hub.loops[i]? = some l := place
  have moved : (c.move (.act (.stop i elsewhere))).stack =
      c.stack.modifyLoop i (·.stop (if elsewhere then none else some c.stack.hub.thread)) := by
    simp only [move, onStack, Stack.act, Stack.ifLoop, here]
    rfl
  rw [moved, Stack.loop_modify i _ c.stack l place, RunLoop.stop, ownStop, place]
  cases elsewhere with
  | true => simp [held]
  | false => simp [held, RunLoop.drivenBy]

theorem logs_accepted (moves : List Move) (c : Scene) (log : Log) :
    ∃ more, (c.logs i moves log).accepted = log.accepted ++ more := by
  induction moves generalizing c log with
  | nil => exact ⟨[], (List.append_nil _).symm⟩
  | cons m rest ih =>
      obtain ⟨more, later⟩ := ih (c.move m) (c.observe i m log)
      refine ⟨c.accepts i m ++ more, later.trans ?_⟩
      rw [observe, List.append_assoc]

theorem run_open (moves : List Move) (c : Scene) (σ : Stage) (l : RunLoop) (starts : c.Starts)
    (place : c.stack.loop? i = some l) (after : Stage.ready.after i moves c = some σ) (opened : σ.isOpen = true) :
    ∃ s : Seat, s.Sits i (c.run moves) ∧ s.log = c.log i moves ∧ s.Fits σ ∧ s.InOrder ∧ s.Live σ ∧ s.Ordered := by
  obtain ⟨settings, sits⟩ := starts_seat i c l starts place
  obtain ⟨s, sits', log, fits, -, order, live, ordered⟩ := run_books i moves c .ready σ _ sits (Seat.fresh_fits settings)
    (Seat.fresh_balanced settings) (fun σ s => (σ.isOpen = true → s.InOrder) ∧ s.Live σ ∧ s.Ordered)
    ⟨fun _ => rfl, fun _ => ⟨rfl, rfl⟩, List.Pairwise.nil⟩ after
    (fun σ σ' s s' turn held => ⟨Seat.order_turn σ σ' s s' turn held.1, Seat.live_turn σ σ' s s' turn held.2.1,
      Seat.ordered_turn σ σ' s s' turn held.2.2⟩)
    (fun σ s s' grow held => ⟨fun opened => Seat.order_grow s s' grow (held.1 opened),
      Seat.live_grow σ s s' grow held.2.1, Seat.ordered_grow s s' grow held.2.2⟩)
  exact ⟨s, sits', log, fits, order opened, live, ordered⟩

theorem run_opened (before later : List Move) (c : Scene) (σ : Stage) (l : RunLoop) (starts : c.Starts)
    (place : c.stack.loop? i = some l) (after : Stage.ready.after i (before ++ later) c = some σ) (opened : σ.isOpen = true) :
    ∃ s : Seat, s.Sits i (c.run before) ∧ s.loop.attached = true := by
  rw [Stage.after_append] at after
  obtain ⟨σ₁, ready, rest⟩ := Option.bind_eq_some_iff.mp after
  have opened₁ := Stage.after_open i later (c.run before) σ₁ σ rest opened
  obtain ⟨s, sits, -, -, -, live, -⟩ := run_open i before c σ₁ l starts place ready opened₁
  exact ⟨s, sits, (live opened₁).1⟩

theorem stop_queued (before later : List Move) (elsewhere : Bool) (c : Scene) (σ : Stage) (l : RunLoop) (starts : c.Starts)
    (place : c.stack.loop? i = some l)
    (after : Stage.ready.after i (before ++ .act (.stop i elsewhere) :: later) c = some σ) (opened : σ.isOpen = true)
    (other : (c.run before).ownStop i elsewhere = false)
    (waits : (c.log i (before ++ .act (.stop i elsewhere) :: later)).processed.length ≤ (c.log i before).accepted.length) :
    .stop ∈ (c.run (before ++ .act (.stop i elsewhere) :: later)).queued i := by
  obtain ⟨s₁, sits₁, held⟩ := run_opened i before _ c σ l starts place after opened
  obtain ⟨s, sits, log, -, order, -⟩ := run_open i _ c σ l starts place after opened
  have moved := move_stop i elsewhere (c.run before) s₁.loop sits₁.shows.place held
  rw [other] at moved
  have accepted : (c.run before).accepts i (.act (.stop i elsewhere)) = [.stop] := by
    have here : ((c.run before).move (.act (.stop i elsewhere))).queued i = s₁.loop.queue.toList ++ [.stop] := by
      simp [queued, moved]
    rw [accepts, here, sits_queued i _ s₁ sits₁]
    exact List.drop_left
  obtain ⟨more, rest⟩ := logs_accepted i later ((c.run before).move (.act (.stop i elsewhere)))
    ((c.run before).observe i (.act (.stop i elsewhere)) (c.log i before))
  have whole : s.log.accepted = (c.log i before).accepted ++ .stop :: more := by
    rw [log, Scene.log, logs_append]
    refine rest.trans ?_
    rw [observe, accepted, List.append_assoc]
    rfl
  rw [sits_queued i _ s sits]
  rw [← log] at waits
  have spot : (s.log.processed ++ s.loop.queue.toList)[(c.log i before).accepted.length]? = some .stop := by
    rw [← show s.log.accepted = s.log.processed ++ s.loop.queue.toList from order, whole,
      List.getElem?_append_right (Nat.le_refl _), Nat.sub_self]
    rfl
  rw [List.getElem?_append_right waits] at spot
  exact List.mem_of_getElem? spot

end Scene

namespace Stack

variable (j : Nat)

theorem leads_flagged (i : Nat) (σ σ' : Stage) (s s' : Stack) (leads : s.Leads i σ σ' s') (flagged : s.stopRequested j = true) :
    s'.stopRequested j = true := by
  obtain ⟨moves, -, reached⟩ := leads []
  have kept := Scene.run_flagged j moves ⟨s, []⟩ flagged
  rw [reached] at kept
  exact kept

theorem runFor_flagged (fuel : Nat) (s : Stack) (t : Task) (next : Stack) (flagged : s.stopRequested j = true)
    (taken : s.next? j = some (t, next)) : (s.runFor j (fuel + 1)).1 = .closed := by
  have own := leads_task j j .ready .ready .busy .ready t s next taken rfl rfl
  have still := leads_flagged j j _ _ _ _ own flagged
  rw [runFor, taken]
  cases t with
  | stop => rfl
  | event | job | load | unload => simp only [still, if_true]

theorem run_waits (s : Stack) (empty : s.next? j = none) : s.run j = (.waiting, s) := by
  rw [run, runFor, empty]

end Stack

namespace Scene

variable (i : Nat)

/-- What is left of a stop when its loop is run: a flag, if the thread that drove the loop asked for it; else its task,
unless a drive came to that before. Either ends the run, the flag only if there is a task to process. With nothing
queued the run waits. -/
theorem stop_outcome (c : Scene) (before later : List Move) (elsewhere : Bool) (thread : Thread) (l : RunLoop) (starts : c.Starts)
    (place : c.stack.loop? i = some l)
    (ready : Stage.ready.after i (before ++ .act (.stop i elsewhere) :: later) c = some .ready) :
    let reached := c.run (before ++ .act (.stop i elsewhere) :: later)
    let s := (reached.stack.asThread thread).occupy i
    ((c.run before).ownStop i elsewhere = true → s.stopRequested i = true ∧
        (reached.queued i ≠ [] → (s.run i).1 = .closed)) ∧
      ((c.run before).ownStop i elsewhere = false →
        (c.log i (before ++ .act (.stop i elsewhere) :: later)).processed.length ≤ (c.log i before).accepted.length →
          .stop ∈ reached.queued i ∧ (s.run i).1 = .closed) ∧
      ((s.run i).1 = .closed → (s.run i).2.Rests i .gone) ∧
      (reached.queued i = [] → s.run i = (.waiting, s)) := by
  intro reached s
  obtain ⟨seat, sits, -, -, -, -, ordered⟩ := run_open i _ c .ready l starts place ready rfl
  have here : s.loop? i = some (seat.loop.occupy thread) :=
    Stack.loop_modify i _ (reached.stack.asThread thread) seat.loop sits.shows.place
  have queued : reached.queued i = seat.loop.queue.toList := sits_queued i reached seat sits
  have next : s.next? i = none ↔ reached.queued i = [] := by
    rw [queued]
    simp [Stack.next?, here, RunLoop.next?, Fifo.pop?_eq_none, RunLoop.occupy]
  refine ⟨fun own => ?_, fun other waits => ?_, fun closed => ?_, fun empty => Stack.run_waits i s (next.mpr empty)⟩
  · obtain ⟨seat₁, sits₁, held⟩ := run_opened i before _ c .ready l starts place ready rfl
    have moved := move_stop i elsewhere (c.run before) seat₁.loop sits₁.shows.place held
    rw [own] at moved
    have flagged : reached.stack.stopRequested i = true := by
      have first : ((c.run before).move (.act (.stop i elsewhere))).stack.stopRequested i = true := by
        simp [Stack.stopRequested, moved]
      have kept := run_flagged i later _ first
      rw [show reached = ((c.run before).move (.act (.stop i elsewhere))).run later from run_append before _ c]
      exact kept
    have flag : s.stopRequested i = true := by
      have asked : reached.stack.loop? i = some seat.loop := sits.shows.place
      rw [Stack.stopRequested, asked] at flagged
      rw [Stack.stopRequested, here]
      exact flagged
    refine ⟨flag, fun some => ?_⟩
    cases taken : s.next? i with
    | none => exact absurd (next.mp taken) some
    | some found => exact Stack.runFor_flagged i s.weight s found.1 found.2 flag taken
  · have stop := stop_queued i before later elsewhere c .ready l starts place ready rfl other waits
    refine ⟨stop, Stack.runFor_closes i _ s ⟨_, here, ordered⟩ (Nat.lt_succ_self _) fun l' place' => ?_⟩
    rw [here] at place'
    cases place'
    rw [queued] at stop
    exact stop
  · have leads := Stack.leads_runFor i i .ready (s.weight + 1) s _ here
    have whole : (s.run i).1 = .closed := closed
    rw [Stage.seen_self, Stage.seen_self, show (s.runFor i (s.weight + 1)).1 = .closed from whole] at leads
    exact (Stack.leads_rests i _ _ _ _ leads (Stack.rests_ready i s _ here)).1

-- The thread that drives the loop asks for a stop, and a job is queued behind; then the loop is run from elsewhere.
theorem flagged_run_closes :
    (small.run [.occupy 0]).ownStop 0 false = true ∧
      (((small.run [.occupy 0, .act (.stop 0 false), .act (.defer 0 "j" [])]).stack.asThread 1).occupy 0 |>.run 0).1 = .closed ∧
      (((small.run [.occupy 0, .act (.stop 0 false), .act (.defer 0 "j" [])]).stack.asThread 1).occupy 0 |>.run 0).2.Rests 0
        .gone := by
  obtain ⟨flagged, -, closes, -⟩ := stop_outcome 0 small [.occupy 0] [.act (.defer 0 "j" [])] false 1
    { settings := {} } small_starts rfl rfl
  have own : (small.run [.occupy 0]).ownStop 0 false = true := by decide
  have closed := (flagged own).2 (List.ne_nil_of_length_pos (by decide))
  exact ⟨own, closed, closes closed⟩

-- A stop by the thread that drives the loop, with nothing queued; and a stop from elsewhere that a drive takes. After
-- either the loop is run, and waits.
theorem stop_forgotten :
    small.Starts ∧
      ((small.run [.occupy 0]).ownStop 0 false = true ∧
        Stage.ready.after 0 [.occupy 0, .act (.stop 0 false)] small = some .ready ∧
        (((small.run [.occupy 0, .act (.stop 0 false)]).stack.asThread 0).occupy 0 |>.run 0).1 = .waiting) ∧
      (Stage.ready.after 0 [.act (.stop 0 true), .occupy 0, .take 0, .finish 0] small = some .ready ∧
        (((small.run [.act (.stop 0 true), .occupy 0, .take 0, .finish 0]).stack.asThread 0).occupy 0 |>.run 0).1 = .waiting) :=
  ⟨small_starts, ⟨by decide, by decide, by decide⟩, by decide, by decide⟩

end Scene

end HubRelay
