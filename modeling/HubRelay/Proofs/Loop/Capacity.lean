import HubRelay.Proofs.Loop.Closing
import HubRelay.Proofs.Relay.Guises
import HubRelay.Proofs.Relay.Incidents

/-! The events that a loop may queue: they are counted as long as the loop is there, whoever posts and wherever the
loop is between two moves. Nothing here depends on how the loop is driven. -/

set_option autoImplicit false

namespace HubRelay

namespace Seat

structure Capped (settings : LoopSettings) (s : Seat) : Prop where
  known : s.loop.settings = settings
  queued : s.loop.queuedEvents = s.loop.queue.toList.countP Task.isEvent
  bounded : s.loop.queuedEvents ≤ settings.eventCapacity

variable {settings : LoopSettings} {s s' : Seat}

theorem capped_same (capped : s.Capped settings) (same : s'.loop.settings = s.loop.settings)
    (events : s'.loop.queuedEvents = s.loop.queuedEvents) (queue : s'.loop.queue = s.loop.queue) : s'.Capped settings := by
  obtain ⟨known, queued, bounded⟩ := capped
  refine ⟨same.trans known, ?_, ?_⟩
  · rw [events, queue]
    exact queued
  · rw [events]
    exact bounded

theorem capped_pop (e : Event) (queue : Fifo Task) (capped : s.Capped settings)
    (waits : s.loop.queue.toList = .event e :: queue.toList) (same : s'.loop.settings = s.loop.settings)
    (events : s'.loop.queuedEvents = s.loop.queuedEvents - 1) (queue' : s'.loop.queue = queue) : s'.Capped settings := by
  obtain ⟨known, queued, bounded⟩ := capped
  refine ⟨same.trans known, ?_, ?_⟩
  · rw [events, queue']
    exact queued_pop e _ _ _ waits queued
  · rw [events]
    exact (Nat.sub_le _ _).trans bounded

theorem capped_skip (t : Task) (queue : Fifo Task) (capped : s.Capped settings) (plain : t.event? = none)
    (waits : s.loop.queue.toList = t :: queue.toList) (same : s'.loop.settings = s.loop.settings)
    (events : s'.loop.queuedEvents = s.loop.queuedEvents) (queue' : s'.loop.queue = queue) : s'.Capped settings := by
  obtain ⟨known, queued, bounded⟩ := capped
  refine ⟨same.trans known, ?_, ?_⟩
  · rw [events, queue']
    exact queued_skip t _ _ _ plain waits queued
  · rw [events]
    exact bounded

theorem capped_enqueue (t : Task) (l next : RunLoop) (taken : l.enqueue t = .ok next) (known : l.settings = settings)
    (queued : l.queuedEvents = l.queue.toList.countP Task.isEvent) (bounded : l.queuedEvents ≤ settings.eventCapacity) :
    next.settings = settings ∧ next.queuedEvents = next.queue.toList.countP Task.isEvent ∧
      next.queuedEvents ≤ settings.eventCapacity := by
  have pushed := queued_push t l next taken queued
  have change := RunLoop.enqueue_cases t l next taken
  refine ⟨by rw [change]; exact known, pushed, ?_⟩
  cases event : t.isEvent with
  | false =>
      rw [change]
      simpa [event] using bounded
  | true =>
      have room : l.queuedEvents < l.settings.eventCapacity := by
        unfold RunLoop.enqueue at taken
        by_contra full
        simp only [event, full, decide_false, Bool.not_false, Bool.and_self, if_true] at taken
        split at taken <;> cases taken
      rw [change]
      simp only [event, if_true]
      rw [← known]
      exact room

theorem capped_grow (grow : s.Grow s') (capped : s.Capped settings) : s'.Capped settings := by
  obtain ⟨known, queued, bounded⟩ := capped
  cases grow with
  | steer owner stopRequested => exact ⟨known, queued, bounded⟩
  | halt attached => exact ⟨known, by simpa [Task.isEvent] using queued, bounded⟩
  | accept t l plain taken =>
      obtain ⟨known', queued', bounded'⟩ := capped_enqueue t s.loop l taken known queued bounded
      exact ⟨known', queued', bounded'⟩
  | request badge issued => exact ⟨known, queued, bounded⟩
  | load badge program l issued taken =>
      obtain ⟨known', queued', bounded'⟩ := capped_enqueue _ s.loop.issue.2 l taken known queued bounded
      exact ⟨known', queued', bounded'⟩

theorem capped_turn (σ σ' : Stage) (turn : Turn σ σ' s s') (capped : s.Capped settings) : s'.Capped settings := by
  cases turn with
  | pass e badge program queue waits loaded => exact capped_pop e queue capped waits rfl rfl rfl
  | miss e queue waits absent => exact capped_pop e queue capped waits rfl rfl rfl
  | drain e queue waits => exact capped_pop e queue capped waits rfl rfl rfl
  | job j queue waits begins => exact capped_skip _ queue capped rfl waits rfl rfl rfl
  | load badge program queue waits fresh => exact capped_skip _ queue capped rfl waits rfl rfl rfl
  | unload app badge a queue waits known loaded => exact capped_skip _ queue capped rfl waits rfl rfl rfl
  | strike app badge queue waits known absent => exact capped_skip _ queue capped rfl waits rfl rfl rfl
  | skip t queue waits idle =>
      have plain : t.event? = none := by cases t <;> simp_all [Idle, Task.event?]
      exact capped_skip t queue capped plain waits rfl rfl rfl
  | drop t queue waits job event => exact capped_skip t queue capped event waits rfl rfl rfl
  | rest | install | decline | quit | consume | count | shut | dismiss | clear | leave => exact capped_same capped rfl rfl rfl

theorem grow_attached (grow : s.Grow s') : s'.loop.attached = s.loop.attached := by
  cases grow with
  | steer | halt | request => rfl
  | accept t l plain taken => rw [RunLoop.enqueue_cases t s.loop l taken]
  | load badge program l issued taken =>
      rw [RunLoop.enqueue_cases _ _ l taken]
      rfl

theorem turn_attached (σ σ' : Stage) (turn : Turn σ σ' s s') (alive : s'.loop.attached = true) :
    s.loop.attached = true := by
  cases turn with
  | leave done => cases alive
  | _ => exact alive

theorem capped_grows (grows : s.Grows s') (capped : s.Capped settings) : s'.Capped settings := by
  induction grows with
  | refl => exact capped
  | tail _ last ih => exact capped_grow last ih

theorem grows_attached (grows : s.Grows s') : s'.loop.attached = s.loop.attached := by
  induction grows with
  | refl => rfl
  | tail _ last ih => exact (grow_attached last).trans ih

end Seat

theorem Hub.discard_loops (h : Hub) (e : Event) : (h.discard e).loops = h.loops := by
  unfold discard
  split
  · rfl
  · rfl
  · next k n _ =>
      obtain ⟨journal, reclaimed⟩ := h.reclaim_cases k
      rw [reclaimed]

theorem Hub.grows_discarded (i : Nat) (past : Hub) (tasks : List Task) (h : Hub) (grown : past.Grows i h) :
    past.Grows i (tasks.foldl (fun h t => h.discardTask t) h) := by
  induction tasks generalizing h with
  | nil => exact grown
  | cons t rest ih =>
      refine ih (h.discardTask t) ?_
      cases t with
      | event e => exact grows_discard i past h e grown
      | job j =>
          cases j with
          | user | handBack => exact grows_same i past h _ grown rfl rfl rfl
          | retry => exact grown
      | load | unload | stop => exact grown

namespace Scene

variable (i : Nat) (c : Scene) (s : Seat)

theorem sits_dropLoop (j : Nat) (sits : s.Sits i c) :
    ∃ s' : Seat, s'.Sits i (c.meet (.dropLoop j)) ∧ (j = i → s'.loop.attached = false) ∧
      (j ≠ i → s.Grows s') := by
  by_cases here : j = i
  · subst here
    have dropped := Seat.shows_modify j c.stack.hub s sits.shows fun l =>
      { l with queue := .empty, apps := [], attached := false }
    obtain ⟨s', shows, grows⟩ := Hub.grows_discarded j _ (((c.stack.loop? j).map (·.queue.toList)).getD []) _
      (Hub.grows_refl j _) _ dropped
    exact ⟨s', ⟨shows, (Seat.grows_queue _ _ grows).1.trans sits.hand⟩, fun _ => Seat.grows_attached grows,
      fun apart => absurd rfl apart⟩
  · have grown : c.stack.hub.Grows i (c.stack.dropLoop j).hub :=
      Hub.grows_discarded i _ _ _ (Hub.grows_modify i _ c.stack.hub j _ (Hub.grows_refl i _) here)
    obtain ⟨s', shows, grows⟩ := grown s sits.shows
    exact ⟨s', ⟨shows, (Seat.grows_queue _ _ grows).1.trans sits.hand⟩, fun same => absurd same here, fun _ => grows⟩

-- The next task is a job, or there is none: neither is dropped.
theorem drop_waits (j : Nat) (c : Scene) (step : Stage.draining.step j (.drop j) c = none) :
    ((c.queued j).take 1).filter (!·.isJob) = [] ∧ c.stack.dropTask j = c.stack := by
  have kept : ((c.queued j).take 1).filter (!·.isJob) = [] := by
    simp only [Stage.step, if_true, Stage.drop] at step
    cases waits : c.queued j with
    | nil => rfl
    | cons t rest => cases t <;> simp_all [Task.isJob]
  refine ⟨kept, ?_⟩
  cases taken : c.stack.next? j with
  | none => rw [Stack.dropTask, taken]
  | some found =>
      obtain ⟨t, next⟩ := found
      obtain ⟨⟨rest, queued⟩, -⟩ := queued_next j c t next taken
      rw [queued] at kept
      cases t with
      | job k => rw [Stack.dropTask, taken]
      | event | load | unload | stop => simp [Task.isJob] at kept

theorem move_stageless (m : Move) (sits : s.Sits i c) :
    (∃ σ σ', c.Turned i s m σ σ') ∨
      c.pops i m = [] ∧ ∃ l : RunLoop, l.queue = s.loop.queue ∧ l.queuedEvents = s.loop.queuedEvents ∧
        l.settings = s.loop.settings ∧ (l.attached = true → s.loop.attached = true) ∧
        Seat.Sits i (c.move m) { s with loop := l } := by
  have met : ∀ (m : Move) (σ σ' : Stage), (σ = .draining → s.loop.stopped = true) → σ.step i m c = some σ' →
      ∃ σ σ', c.Turned i s m σ σ' := fun m σ σ' shut step => ⟨σ, σ', move_turned i c s m σ σ' sits shut step⟩
  have idle : ∀ m : Move, c.move m = c → c.pops i m = [] → c.processes i m = [] → c.spends i m = [] →
      ∃ σ σ', c.Turned i s m σ σ' := by
    intro m still pops processes spends
    refine ⟨.ready, .ready, move_aside i c s m .ready sits ?_ ?_ pops processes spends⟩
    · rw [still]
      exact Hub.grows_refl i _
    · rw [still]
  have place : c.stack.loop? i = some s.loop := sits.shows.place
  have stopped : c.stack.isShut i = s.loop.stopped := by rw [Stack.isShut, place, Option.map_some, Option.getD_some]
  cases m with
  | act | haul | turn | note | tell | occupy | dropRelay => exact .inl (met _ .ready .ready (by simp) rfl)
  | take j =>
      by_cases here : j = i
      · exact .inl (met _ .ready _ (by simp) (by rw [Stage.step, if_pos here]; rfl))
      · exact .inl (met _ .ready .ready (by simp) (if_neg here))
  | finish place =>
      by_cases here : (c.hand[place]?).map (·.1) = some i
      · exact .inl (met _ .busy .ready (by simp) (if_pos here))
      · exact .inl (met _ .busy .busy (by simp) (if_neg here))
  | shut j =>
      by_cases here : j = i
      · exact .inl (met _ .ready .ending (by simp) (if_pos here))
      · exact .inl (met _ .ready .ready (by simp) (if_neg here))
  | quit j spot =>
      by_cases here : j = i
      · subst here
        have left := sits_leaving j c s sits
        cases there : s.loop.leaving[spot]? with
        | some a => exact .inl (met _ .ending .ending (by simp) (by simp [Stage.step, Stage.quit, left, there]))
        | none =>
            have dismissed := Seat.shows_modify j c.stack.hub s sits.shows (·.dismiss spot)
            have moved : c.move (.quit j spot) = c.onStack (·.modifyLoop j (·.dismiss spot)) := by
              simp only [move, onStack, Stack.quit, left, there]
            rw [moved]
            exact .inr ⟨rfl, s.loop.dismiss spot, rfl, rfl, rfl, id, dismissed, sits.hand⟩
      · exact .inl (met _ .ready .ready (by simp) (if_neg here))
  | clearRoster j =>
      by_cases here : j = i
      · subst here
        have cleared := Seat.shows_modify j c.stack.hub s sits.shows fun l => { l with roster := [] }
        exact .inr ⟨rfl, { s.loop with roster := [] }, rfl, rfl, rfl, id, cleared, sits.hand⟩
      · exact .inl (met _ .ending .ending (by simp) (if_neg here))
  | drop j =>
      by_cases here : j = i
      · subst here
        refine .inl ?_
        cases shut : s.loop.stopped with
        | false =>
            exact idle (.drop j) (by simp [move, stopped, shut]) (by simp [pops, stopped, shut]) rfl
              (by simp [spends, pops, stopped, shut])
        | true =>
            cases step : Stage.draining.step j (.drop j) c with
            | some σ' => exact met _ .draining σ' (fun _ => shut) step
            | none =>
                obtain ⟨kept, still⟩ := drop_waits j c step
                refine idle (.drop j) ?_ ?_ rfl ?_
                · simp only [move, stopped, shut, if_true, onStack, still]
                · rw [pops, if_pos ⟨rfl, stopped.trans shut⟩, kept]
                · rw [spends, pops, if_pos ⟨rfl, stopped.trans shut⟩, kept]
                  rfl
      · exact .inl (met _ .ready .ready (by simp) (if_neg here))
  | detach j =>
      by_cases here : j = i
      · subst here
        cases shut : s.loop.stopped with
        | false => exact .inl (idle (.detach j) (by simp [move, stopped, shut]) rfl rfl rfl)
        | true =>
            have moved : c.move (.detach j) = c.onStack (·.detach j) := by simp only [move, stopped, shut, if_true]
            have detached := Seat.shows_modify j c.stack.hub s sits.shows fun l => { l with attached := false }
            rw [moved]
            exact .inr ⟨rfl, { s.loop with attached := false }, rfl, rfl, rfl, fun held => absurd held Bool.false_ne_true, detached,
              sits.hand⟩
      · exact .inl (met _ .ready .ready (by simp) (if_neg here))

variable {i : Nat} {c : Scene} {s : Seat}

theorem move_capped (m : Move) (sits : s.Sits i c) :
    ∃ s' : Seat, s'.Sits i (c.move m) ∧ (s'.loop.attached = true → s.loop.attached = true) ∧
      ∀ settings, s.Capped settings → s'.Capped settings ∧
        s'.loop.queuedEvents + (c.pops i m).countP Task.isEvent =
          s.loop.queuedEvents + (c.accepts i m).countP Task.isEvent := by
  rcases move_stageless i c s m sits with ⟨σ, σ', mid, after, turn, grows, popped, sits', -⟩ |
    ⟨pops, l, queue, count, settings, lasting, sits'⟩
  · obtain ⟨-, more, queue, -⟩ := Seat.grows_queue mid after grows
    have accepted : c.accepts i m = more := by
      rw [accepts, sits_queued i _ after sits', sits_queued i c s sits, popped, queue, List.length_append,
        Nat.add_sub_cancel_left, List.drop_left]
    refine ⟨after, sits', fun alive => ?_, fun settings capped => ?_⟩
    · exact Seat.turn_attached σ σ' turn ((Seat.grows_attached grows).symm.trans alive)
    · have capped' := Seat.capped_grows grows (Seat.capped_turn σ σ' turn capped)
      refine ⟨capped', ?_⟩
      rw [capped'.queued, capped.queued, popped, queue, accepted, List.countP_append, List.countP_append]
      omega
  · have same : c.accepts i m = [] := by
      rw [accepts, pops, sits_queued i _ _ sits', sits_queued i c s sits, queue]
      exact List.drop_length
    refine ⟨_, sits', lasting, fun _ capped => ⟨Seat.capped_same capped settings count queue, ?_⟩⟩
    rw [same, pops, count]

theorem undergo_capped (incidents : List Incident) (c : Scene) (s : Seat) (settings : LoopSettings) (sits : s.Sits i c)
    (capped : s.Capped settings) :
    ∃ s' : Seat, s'.Sits i (c.undergo incidents) ∧ (s'.loop.attached = true → s'.Capped settings) := by
  refine undergo_invariant (fun c => ∃ s' : Seat, s'.Sits i c ∧ (s'.loop.attached = true → s'.Capped settings))
    (fun _ => True) (fun x c _ ⟨s, sits, held⟩ => ?_) incidents c (fun _ _ => trivial) ⟨s, sits, fun _ => capped⟩
  cases x with
  | move m =>
      obtain ⟨s', sits', lasting, kept⟩ := move_capped m sits
      exact ⟨s', sits', fun alive => (kept settings (held (lasting alive))).1⟩
  | dropLoop j =>
      obtain ⟨s', sits', own, other⟩ := sits_dropLoop i c s j sits
      refine ⟨s', sits', fun alive => ?_⟩
      by_cases here : j = i
      · rw [own here] at alive
        cases alive
      · exact Seat.capped_grows (other here) (held ((Seat.grows_attached (other here)).symm.trans alive))

end Scene

namespace Stack

/-- What the loop takes. An event that it does not take goes back to the poster, who drops it here: its hook runs then,
and not before. -/
structure Admits (i : Nat) (l : RunLoop) (s : Stack) : Prop where
  post : ∀ e, (s.act (.post i e)).1 = .refused e ↔
    l.stopped = true ∨ l.queue.toList.countP Task.isEvent = l.settings.eventCapacity
  refused : ∀ e, (s.act (.post i e)).1 = .refused e →
    (∃ failure, s.enqueue i (.event e) = .error failure) ∧ s.act (.post i e) = (.refused e, s.onHub (·.discard e)) ∧
      (s.act (.post i e)).2.loop? i = some l
  posted : ∀ e, (s.act (.post i e)).1 ≠ .refused e → (s.act (.post i e)).1 = .ok ∧
    (s.act (.post i e)).2.loop? i = some { l with queue := l.queue.push (.event e), queuedEvents := l.queuedEvents + 1 }
  -- Whatever else is queued needs no room.
  other : ∀ t, t.isEvent = false → (l.stopped = true → s.enqueue i t = .error .stopped) ∧
    (l.stopped = false → ∃ s', s.enqueue i t = .ok s' ∧ s'.loop? i = some { l with queue := l.queue.push t })
  defer : ∀ label script, (s.act (.defer i label script)).1 = .flag (!l.stopped)
  load : ∀ app permissions program, (∃ failure, (s.act (.load i app permissions program)).1 = .loaded (.error failure)) ↔
    l.stopped = true
  unload : ∀ app, (∃ failure, (s.act (.unload i app)).1 = .unloaded (.error failure)) ↔ l.stopped = true

theorem enqueue_taken (i : Nat) (t : Task) (s : Stack) (l next : RunLoop) (place : s.loop? i = some l)
    (taken : l.enqueue t = .ok next) : ∃ s', s.enqueue i t = .ok s' ∧ s'.loop? i = some next := by
  have here : s.hub.loops[i]? = some l := place
  refine ⟨{ s with hub := { s.hub with loops := s.hub.loops.set i next } }, ?_, ?_⟩
  · simp only [enqueue, Hub.enqueue, here, taken]
  · exact List.getElem?_set_self (List.getElem?_eq_some_iff.mp here).1

theorem enqueue_refused (i : Nat) (t : Task) (s : Stack) (l : RunLoop) (failure : LoopFailure) (place : s.loop? i = some l)
    (refused : l.enqueue t = .error failure) : s.enqueue i t = .error failure := by
  have here : s.hub.loops[i]? = some l := place
  simp only [enqueue, Hub.enqueue, here, refused]

theorem load_answer (i : Nat) (app : AppId) (permissions : Permissions) (program : Program Action) (s : Stack) (l : RunLoop)
    (place : s.loop? i = some l) (alive : l.attached = true) :
    (∃ failure, (s.act (.load i app permissions program)).1 = .loaded (.error failure)) ↔ l.stopped = true := by
  have here : s.hub.loops[i]? = some l := place
  have spot : (s.hub.issued i app permissions l).loops[i]? = some l.issue.2 :=
    List.getElem?_set_self (List.getElem?_eq_some_iff.mp here).1
  have answer : (s.act (.load i app permissions program)).1 = .loaded (s.hub.requestLoad i app permissions program).1 := by
    simp only [act, ifLoop, here]
  have issued : l.issue.2.stopped = l.stopped ∧ l.issue.2.attached = true := ⟨rfl, alive⟩
  rw [answer, Hub.requestLoad_queued s.hub i app permissions program l here, Hub.enqueue, spot]
  cases stopped : l.stopped with
  | true => simp [RunLoop.enqueue, issued, stopped, Except.map]
  | false => simp [RunLoop.enqueue, issued, stopped, Task.isEvent, Except.map]

theorem admits (i : Nat) (l : RunLoop) (s : Stack) (place : s.loop? i = some l) (alive : l.attached = true)
    (queued : l.queuedEvents = l.queue.toList.countP Task.isEvent) (bounded : l.queuedEvents ≤ l.settings.eventCapacity) :
    s.Admits i l := by
  have here : s.hub.loops[i]? = some l := place
  have full : l.queue.toList.countP Task.isEvent = l.settings.eventCapacity ↔ ¬l.queuedEvents < l.settings.eventCapacity := by
    omega
  have turned : ∀ e, l.stopped = true ∨ l.queue.toList.countP Task.isEvent = l.settings.eventCapacity →
      ∃ failure, s.enqueue i (.event e) = .error failure := by
    intro e closed
    rw [full] at closed
    have refused : ∃ failure, l.enqueue (.event e) = .error failure := by
      unfold RunLoop.enqueue
      rcases closed with stopped | room
      · exact ⟨.stopped, if_pos stopped⟩
      · cases stopped : l.stopped with
        | true => exact ⟨.stopped, rfl⟩
        | false => exact ⟨.queueFull, by simp [Task.isEvent, room]⟩
    obtain ⟨failure, refused⟩ := refused
    exact ⟨failure, enqueue_refused i _ s l failure place refused⟩
  have taken : ∀ e, ¬(l.stopped = true ∨ l.queue.toList.countP Task.isEvent = l.settings.eventCapacity) →
      ∃ s', s.enqueue i (.event e) = .ok s' ∧
        s'.loop? i = some { l with queue := l.queue.push (.event e), queuedEvents := l.queuedEvents + 1 } := by
    intro e vacant
    rw [full, not_or, not_not] at vacant
    refine enqueue_taken i _ s l _ place ?_
    simp [RunLoop.enqueue, vacant.1, vacant.2, alive, Task.isEvent]
  have post : ∀ e, (s.act (.post i e)).1 = .refused e ↔
      l.stopped = true ∨ l.queue.toList.countP Task.isEvent = l.settings.eventCapacity := by
    intro e
    by_cases closed : l.stopped = true ∨ l.queue.toList.countP Task.isEvent = l.settings.eventCapacity
    · obtain ⟨failure, refused⟩ := turned e closed
      simp only [act, ifLoop, here, refused, closed]
    · obtain ⟨s', queued, -⟩ := taken e closed
      simp only [act, ifLoop, here, queued, closed, reduceCtorEq]
  have other : ∀ t : Task, t.isEvent = false → (l.stopped = true → s.enqueue i t = .error .stopped) ∧
      (l.stopped = false → ∃ s', s.enqueue i t = .ok s' ∧ s'.loop? i = some { l with queue := l.queue.push t }) := by
    intro t plain
    refine ⟨fun stopped => enqueue_refused i t s l _ place (if_pos stopped), fun going => ?_⟩
    exact enqueue_taken i t s l _ place (by simp [RunLoop.enqueue, going, plain, alive])
  constructor
  case post => exact post
  case refused =>
    intro e refused
    obtain ⟨failure, refused⟩ := turned e ((post e).mp refused)
    have answer : s.act (.post i e) = (.refused e, s.onHub (·.discard e)) := by simp only [act, ifLoop, here, refused]
    refine ⟨⟨failure, refused⟩, answer, ?_⟩
    rw [answer]
    exact (congrArg (·[i]?) (Hub.discard_loops s.hub e)).trans here
  case posted =>
    intro e accepted
    obtain ⟨s', queued, loop⟩ := taken e fun closed => accepted ((post e).mpr closed)
    simp only [act, ifLoop, here, queued]
    exact ⟨trivial, loop⟩
  case other => exact other
  case defer =>
    intro label script
    cases stopped : l.stopped with
    | true => simp only [act, ifLoop, here, (other (.job (.user label script)) rfl).1 stopped, Bool.not_true]
    | false =>
        obtain ⟨s', queued, -⟩ := (other (.job (.user label script)) rfl).2 stopped
        simp only [act, ifLoop, here, queued, Bool.not_false]
  case load => exact fun app permissions program => load_answer i app permissions program s l place alive
  case unload =>
    intro app
    cases stopped : l.stopped with
    | true => simp [act, ifLoop, here, (other (.unload app) rfl).1 stopped]
    | false =>
        obtain ⟨s', queued, -⟩ := (other (.unload app) rfl).2 stopped
        simp [act, ifLoop, here, queued]

end Stack

namespace Scene

/-- As long as a loop is there, it counts the events in its queue, and never more than its capacity: whatever is posted or
deferred from inside handlers, callbacks or the last jobs of a loop that closes, and whatever happens to other loops. Each
move lowers the count by the events that it takes from the queue, so it never falls short. A post is refused for a loop that
stopped or is full, and for nothing else; what is no event is refused by a loop that stopped, and by no other. -/
theorem event_capacity_kept (i : Nat) (c : Scene) (incidents : List Incident) (l₀ l : RunLoop) (starts : c.Starts)
    (first : c.stack.loop? i = some l₀) (place : (c.undergo incidents).stack.loop? i = some l) (alive : l.attached = true) :
    l.settings = l₀.settings ∧ l.queuedEvents = l.queue.toList.countP Task.isEvent ∧
      l.queuedEvents ≤ l₀.settings.eventCapacity ∧
      (∀ m, ∃ l', ((c.undergo incidents).move m).stack.loop? i = some l' ∧
        l'.queuedEvents + ((c.undergo incidents).pops i m).countP Task.isEvent =
          l.queuedEvents + ((c.undergo incidents).accepts i m).countP Task.isEvent) ∧
      (c.undergo incidents).stack.Admits i l := by
  obtain ⟨settings, sits⟩ := starts_seat i c l₀ starts first
  have fresh : l₀.settings = settings :=
    congrArg RunLoop.settings (Option.some.inj (first.symm.trans sits.shows.place))
  obtain ⟨s, sits', held⟩ := undergo_capped incidents c _ settings sits ⟨rfl, rfl, Nat.zero_le _⟩
  have same : s.loop = l := Option.some.inj (sits'.shows.place.symm.trans place)
  subst same
  have capped := held alive
  rw [fresh]
  refine ⟨capped.known, capped.queued, capped.bounded, fun m => ?_, ?_⟩
  · obtain ⟨s', sits'', -, kept⟩ := move_capped m sits'
    exact ⟨s'.loop, sits''.shows.place, (kept settings capped).2⟩
  · exact Stack.admits i s.loop _ place alive capped.queued (by rw [capped.known]; exact capped.bounded)

def paired : Scene where
  stack :=
    { hub :=
        { loops := [{ settings := { eventCapacity := 1 } }, { settings := {} }], registered := 2,
          relay := some { settings := { outstanding := 4 }, pool := .ofCapacity 4 } }
      link := .uplink { settings := {} } }

def cramming : List Incident :=
  [.move (.act (.load 0 1 .none .plain)), .move (.take 0), .move (.finish 0), .move (.act (.post 0 ⟨7, 0, 1, .empty, none⟩)),
    .move (.take 0), .move (.act (.post 0 ⟨8, 0, 1, .empty, none⟩)), .move (.act (.post 0 ⟨9, 0, 1, .empty, some (.note "e")⟩)),
    .move (.act (.defer 0 "j" [])), .dropLoop 1]

theorem cramming_keeps_capacity :
    paired.Starts ∧ ∃ l, (paired.undergo cramming).stack.loop? 0 = some l ∧ l.attached = true ∧ l.queuedEvents = 1 ∧
      l.queue.toList.countP Task.isEvent = 1 ∧ l.queue.length = 2 ∧ (paired.undergo cramming).stack.Admits 0 l := by
  have starts : paired.Starts :=
    ⟨⟨⟨{ outstanding := 4 }, some (.uplink { settings := {} }), some {}, [{ eventCapacity := 1 }, {}], 2⟩, rfl⟩, rfl⟩
  have state : ((paired.undergo cramming).stack.loop? 0).map (fun l => (l.attached, l.queuedEvents, l.queue.length)) =
      some (true, 1, 2) := by decide
  cases place : (paired.undergo cramming).stack.loop? 0 with
  | none =>
      rw [place] at state
      cases state
  | some l =>
      rw [place] at state
      obtain ⟨alive, rest⟩ := Prod.mk.inj (Option.some.inj state)
      obtain ⟨count, length⟩ := Prod.mk.inj rest
      obtain ⟨-, queued, -, -, admits⟩ := event_capacity_kept 0 paired cramming _ l starts rfl place alive
      exact ⟨starts, l, rfl, alive, count, queued.symm.trans count, length, admits⟩

end Scene

end HubRelay
