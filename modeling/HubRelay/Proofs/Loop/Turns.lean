import HubRelay.Proofs.Loop.Growth

/-! What the driver of a loop does to it, a move at a time: each move is one turn of the loop, followed by what
others do to it meanwhile. -/

set_option autoImplicit false

namespace HubRelay

namespace Log

def process (t : Task) (log : Log) : Log := { log with processed := log.processed ++ [t] }

def spend (e : Event) (log : Log) : Log := { log with spent := log.spent ++ [e] }

end Log

def Job.epilogue : Job → Epilogue
  | .handBack k _ _ _ => .giveBack k
  | .user _ _ | .retry _ _ => .countJob

def Epilogue.isJob : Epilogue → Bool
  | .countJob | .giveBack _ => true
  | _ => false

namespace Seat

def Idle (t : Task) (s : Seat) : Prop :=
  match t with
  | .load badge _ => (s.loop.badge? badge.app).isSome
  | .unload app => s.loop.badge? app = none
  | .stop => True
  | .event _ | .job _ => False

/-- What the driver of a loop can do to it, from one stage to the next. -/
inductive Turn : Stage → Stage → Seat → Seat → Prop
  | rest {σ : Stage} {s : Seat} : Turn σ σ s s
  | pass {s : Seat} (e : Event) (badge : Badge) (program : Program Action) (queue : Fifo Task)
      (waits : s.loop.queue.toList = .event e :: queue.toList) (loaded : s.loop.loaded? e.target = some ⟨badge, program⟩) :
      Turn .ready .busy s { s with
        loop := ({ s.loop with queue := queue }.freeEvent).setProgram badge.inst program.nextScript.2
        hand := .consume e ::ₘ s.hand
        passed := e :: s.passed
        calls := s.calls ++ [.handle badge program e]
        log := s.log.process (.event e) }
  | miss {s : Seat} (e : Event) (queue : Fifo Task) (waits : s.loop.queue.toList = .event e :: queue.toList)
      (absent : s.loop.loaded? e.target = none) :
      Turn .ready .busy s { s with
        loop := ({ s.loop with queue := queue }.freeEvent).countDropped
        hand := .nothing ::ₘ s.hand
        missed := e :: s.missed
        calls := s.calls ++ [.drop e]
        log := (s.log.process (.event e)).spend e }
  | job {σ σ' : Stage} {s : Seat} (j : Job) (queue : Fifo Task) (waits : s.loop.queue.toList = .job j :: queue.toList)
      (begins : σ.begin (some (.job j)) = some σ') :
      Turn σ σ' s { s with
        loop := { s.loop with queue := queue }
        hand := j.epilogue ::ₘ s.hand
        log := s.log.process (.job j) }
  | load {s : Seat} (badge : Badge) (program : Program Action) (queue : Fifo Task)
      (waits : s.loop.queue.toList = .load badge program :: queue.toList) (fresh : s.loop.badge? badge.app = none) :
      Turn .ready .busy s { s with
        loop := { s.loop with queue := queue }
        hand := .install badge program ::ₘ s.hand
        calls := s.calls ++ [.start badge program]
        log := s.log.process (.load badge program) }
  | unload {s : Seat} (app : AppId) (badge : Badge) (a : Loaded) (queue : Fifo Task)
      (waits : s.loop.queue.toList = .unload app :: queue.toList) (known : s.loop.badge? app = some badge)
      (loaded : s.loop.loaded? badge.inst = some a) :
      Turn .ready .busy s { s with
        loop := ({ s.loop with queue := queue }.strike app).evict badge.inst
        hand := .nothing ::ₘ s.hand
        calls := s.calls ++ [.close a.badge a.program]
        log := s.log.process (.unload app) }
  | strike {s : Seat} (app : AppId) (badge : Badge) (queue : Fifo Task)
      (waits : s.loop.queue.toList = .unload app :: queue.toList) (known : s.loop.badge? app = some badge)
      (absent : s.loop.loaded? badge.inst = none) :
      Turn .ready .busy s { s with
        loop := { s.loop with queue := queue }.strike app
        hand := .nothing ::ₘ s.hand
        log := s.log.process (.unload app) }
  | skip {s : Seat} (t : Task) (queue : Fifo Task) (waits : s.loop.queue.toList = t :: queue.toList) (idle : s.Idle t) :
      Turn .ready .busy s { s with
        loop := { s.loop with queue := queue }
        hand := .nothing ::ₘ s.hand
        log := s.log.process t }
  | install {σ σ' : Stage} {s : Seat} (badge : Badge) (program : Program Action) (hand : Multiset Epilogue)
      (held : s.hand = .install badge program ::ₘ hand) (starts : program.starts = true) (concludes : σ.conclude = some σ') :
      Turn σ σ' s { s with
        loop := s.loop.install ⟨badge, program.afterStart⟩
        hand := hand
        calls := s.calls ++ [.answer badge true] }
  | decline {σ σ' : Stage} {s : Seat} (badge : Badge) (program : Program Action) (hand : Multiset Epilogue)
      (held : s.hand = .install badge program ::ₘ hand) (refuses : program.starts = false)
      (concludes : σ.conclude = some σ') :
      Turn σ σ' s { s with hand := hand, calls := s.calls ++ [.answer badge false] }
  | quit {σ σ' : Stage} {s : Seat} (hand : Multiset Epilogue) (held : s.hand = .nothing ::ₘ hand)
      (concludes : σ.conclude = some σ') : Turn σ σ' s { s with hand := hand }
  | consume {σ σ' : Stage} {s : Seat} (e : Event) (hand : Multiset Epilogue) (held : s.hand = .consume e ::ₘ hand)
      (concludes : σ.conclude = some σ') :
      Turn σ σ' s { s with loop := s.loop.countDelivered, hand := hand, log := s.log.spend e }
  | count {σ σ' : Stage} {s : Seat} (rest : Epilogue) (hand : Multiset Epilogue) (held : s.hand = rest ::ₘ hand)
      (job : rest.isJob = true) (concludes : σ.conclude = some σ') :
      Turn σ σ' s { s with loop := s.loop.countJob, hand := hand }
  | shut {s : Seat} : Turn .ready .ending s { s with loop := s.loop.shut }
  | dismiss {s : Seat} (place : Nat) (a : Loaded) (there : s.loop.leaving[place]? = some a) :
      Turn .ending .ending s { s with
        loop := s.loop.dismiss place
        calls := s.calls ++ [.close a.badge a.program] }
  | clear {s : Seat} (left : s.loop.leaving = []) :
      Turn .ending .draining s { s with loop := { s.loop with roster := [] } }
  | drain {s : Seat} (e : Event) (queue : Fifo Task) (waits : s.loop.queue.toList = .event e :: queue.toList) :
      Turn .draining .draining s { s with
        loop := ({ s.loop with queue := queue }.freeEvent).countDropped
        drained := e :: s.drained
        calls := s.calls ++ [.drop e]
        log := s.log.spend e }
  | drop {s : Seat} (t : Task) (queue : Fifo Task) (waits : s.loop.queue.toList = t :: queue.toList)
      (job : t.isJob = false) (event : t.event? = none) :
      Turn .draining .draining s { s with loop := { s.loop with queue := queue } }
  | leave {s : Seat} (done : s.loop.queue.toList = []) :
      Turn .draining .gone s { s with loop := { s.loop with attached := false } }

structure Sits (i : Nat) (c : Scene) (s : Seat) : Prop where
  shows : s.Shows i c.stack.hub
  hand : s.hand = (c.underway i : Multiset Epilogue)

variable (i : Nat) (h : Hub) (s : Seat) (shows : s.Shows i h)

include shows

theorem shows_set (l : RunLoop) : Seat.Shows i { h with loops := h.loops.set i l } { s with loop := l } where
  place := List.getElem?_set_self (List.getElem?_eq_some_iff.mp shows.place).1
  requested := shows.requested
  passed := shows.passed
  missed := shows.missed
  drained := shows.drained
  calls := shows.calls

theorem shows_modify (f : RunLoop → RunLoop) : Seat.Shows i (h.modifyLoop i f) { s with loop := f s.loop } where
  place := by
    have place := shows.place
    rw [Hub.modifyLoop, List.getElem?_modify_eq, place]
    rfl
  requested := shows.requested
  passed := shows.passed
  missed := shows.missed
  drained := shows.drained
  calls := shows.calls

theorem shows_held (hand : Multiset Epilogue) (log : Log) : Seat.Shows i h { s with hand := hand, log := log } :=
  ⟨shows.place, shows.requested, shows.passed, shows.missed, shows.drained, shows.calls⟩

theorem shows_call (x : Upcall) : Seat.Shows i (h.call i x) { s with calls := s.calls ++ [x] } :=
  ⟨shows.place, shows.requested, shows.passed, shows.missed, shows.drained,
    (h.callsOn_call i x).trans (congrArg (· ++ [x]) shows.calls)⟩

theorem shows_passed (badge : Badge) (e : Event) :
    Seat.Shows i (h.record (.passed i badge e)) { s with passed := e :: s.passed } where
  place := shows.place
  requested := (requests_none i _ _ (by simp)).trans shows.requested
  passed := (List.filterMap_cons_some (by simp [Happening.passing?])).trans (congrArg _ shows.passed)
  missed := (List.filterMap_cons_none rfl).trans shows.missed
  drained := (List.filterMap_cons_none rfl).trans shows.drained
  calls := shows.calls

theorem shows_missed (e : Event) : Seat.Shows i (h.record (.missed i e)) { s with missed := e :: s.missed } where
  place := shows.place
  requested := (requests_none i _ _ (by simp)).trans shows.requested
  passed := (List.filterMap_cons_none rfl).trans shows.passed
  missed := (List.filterMap_cons_some (by simp [Happening.missing?])).trans (congrArg _ shows.missed)
  drained := (List.filterMap_cons_none rfl).trans shows.drained
  calls := shows.calls

theorem shows_drained (e : Event) : Seat.Shows i (h.record (.drained i e)) { s with drained := e :: s.drained } where
  place := shows.place
  requested := (requests_none i _ _ (by simp)).trans shows.requested
  passed := (List.filterMap_cons_none rfl).trans shows.passed
  missed := (List.filterMap_cons_none rfl).trans shows.missed
  drained := (List.filterMap_cons_some (by simp [Happening.draining?])).trans (congrArg _ shows.drained)
  calls := shows.calls

omit shows

theorem grows_queue (s s' : Seat) (grows : s.Grows s') :
    s'.hand = s.hand ∧ ∃ more, s'.loop.queue.toList = s.loop.queue.toList ++ more ∧
      s'.log = { s.log with accepted := s.log.accepted ++ more } := by
  induction grows with
  | refl => exact ⟨rfl, [], by simp, by simp⟩
  | tail _ step ih =>
      obtain ⟨hand, more, queue, log⟩ := ih
      cases step with
      | steer owner stopRequested => exact ⟨hand, more, queue, log⟩
      | halt attached =>
          refine ⟨hand, more ++ [.stop], ?_, ?_⟩
          · simp only [Fifo.toList_push, queue, List.append_assoc]
          · simp only [Log.accept, log, List.append_assoc]
      | accept t l plain taken =>
          refine ⟨hand, more ++ [t], ?_, ?_⟩
          · rw [RunLoop.enqueue_cases t _ l taken]
            simp only [Fifo.toList_push, queue, List.append_assoc]
          · simp only [Log.accept, log, List.append_assoc]
      | request badge issued => exact ⟨hand, more, queue, log⟩
      | load badge program l issued taken =>
          refine ⟨hand, more ++ [.load badge program], ?_, ?_⟩
          · rw [RunLoop.enqueue_cases _ _ l taken]
            simp only [RunLoop.issue, Fifo.toList_push, queue, List.append_assoc]
          · simp only [Log.accept, log, List.append_assoc]

end Seat

namespace Stack

variable (i j : Nat) (past : Hub) (apart : j ≠ i)

include apart

theorem grows_startTask (t : Task) (s : Stack) (grown : past.Grows i s.hub) :
    past.Grows i (s.startTask j t).2.2.hub := by
  have modified : ∀ (f : RunLoop → RunLoop) (s : Stack), past.Grows i s.hub → past.Grows i (s.modifyLoop j f).hub :=
    fun f s grown => Hub.grows_modify i past s.hub j f grown apart
  have told : ∀ (x : Happening) (h : Hub), x.loop? = some j → past.Grows i h → past.Grows i (h.record x) :=
    fun x h on grown => Hub.grows_record i past h x grown (by simpa [on] using apart)
  have called : ∀ (x : Upcall) (h : Hub), past.Grows i h → past.Grows i (h.call j x) :=
    fun x h grown => Hub.grows_call i past h j x grown apart
  cases t with
  | event e =>
      simp only [startTask, startEvent]
      split
      · exact Hub.grows_discard i past _ e (told _ _ rfl (called _ _ (modified _ _ (modified _ s grown))))
      · next badge program _ =>
          refine called _ _ (told _ _ rfl ?_)
          cases program <;> exact Hub.grows_same i past _ _ (modified _ _ (modified _ s grown)) rfl rfl rfl
  | job job =>
      cases job with
      | user label script => exact Hub.grows_same i past s.hub _ grown rfl rfl rfl
      | handBack k n callback payload =>
          exact Hub.grows_record i past _ _ (Hub.grows_same i past s.hub _ grown rfl rfl rfl) nofun
      | retry k n => exact Hub.grows_retry i past s.hub k grown
  | load badge program =>
      simp only [startTask, startLoad]
      split
      · exact grown
      · refine called _ _ ?_
        simp only [noteStart]
        split <;> exact Hub.grows_same i past s.hub _ grown rfl rfl rfl
  | unload app =>
      simp only [startTask, startUnload]
      split
      · exact grown
      · split
        · exact modified _ s grown
        · next a _ =>
            refine called _ _ ?_
            simp only [noteEnd]
            split <;> exact Hub.grows_same i past _ _ (modified _ _ (modified _ s grown)) rfl rfl rfl
  | stop => exact grown

theorem grows_quit (place : Nat) (s : Stack) (grown : past.Grows i s.hub) : past.Grows i (s.quit j place).2.hub := by
  have left := Hub.grows_modify i past s.hub j (·.dismiss place) grown apart
  unfold quit
  split
  · exact left
  · refine Hub.grows_call i past _ j _ ?_ apart
    unfold noteEnd
    split <;> exact Hub.grows_same i past _ _ left rfl rfl rfl

theorem grows_finishTask (rest : Epilogue) (s : Stack) (grown : past.Grows i s.hub) :
    past.Grows i (s.finishTask j rest).hub := by
  cases rest with
  | nothing => exact grown
  | install badge program =>
      refine Hub.grows_call i past _ j _ ?_ apart
      split
      · exact Hub.grows_modify i past s.hub j _ grown apart
      · exact grown
  | consume e => exact Hub.grows_discard i past _ e (Hub.grows_modify i past s.hub j _ grown apart)
  | countJob => exact Hub.grows_modify i past s.hub j _ grown apart
  | giveBack k =>
      exact Hub.grows_modify i past _ j _
        (Hub.grows_reclaim i past _ k (Hub.grows_same i past s.hub _ grown rfl rfl rfl)) apart

theorem grows_next (t : Task) (s next : Stack) (grown : past.Grows i s.hub) (taken : s.next? j = some (t, next)) :
    past.Grows i next.hub := by
  obtain ⟨l, queue, -, -, rfl⟩ := next_cases j t s next taken
  exact Hub.grows_set i past s.hub j _ grown apart

theorem grows_dropTask (s : Stack) (grown : past.Grows i s.hub) : past.Grows i (s.dropTask j).hub := by
  unfold dropTask
  split
  · exact grown
  · exact grown
  · next e next taken =>
      have dropped := Hub.grows_modify i past next.hub j (fun l => l.freeEvent.countDropped)
        (grows_next i j past apart _ s next grown taken) apart
      have called := Hub.grows_call i past _ j (.drop e) dropped apart
      exact Hub.grows_discard i past _ e (Hub.grows_record i past _ _ called (by simpa [Happening.loop?] using apart))
  · next t next _ _ taken => exact grows_next i j past apart t s next grown taken

end Stack

namespace Seat

def unhosted (t : Task) (s : Seat) : List Event :=
  t.event?.toList.filter fun e => (s.loop.loaded? e.target).isNone

def Begun (i : Nat) (σ σ' : Stage) (t : Task) (s : Seat) (outcome : Script × Epilogue × Stack) : Prop :=
  ∃ mid after : Seat, Turn σ σ' s mid ∧ mid.Grows after ∧ after.Shows i outcome.2.2.hub ∧
    mid.hand = outcome.2.1 ::ₘ s.hand ∧ s.loop.queue.toList = t :: mid.loop.queue.toList ∧
    mid.log = { s.log with processed := s.log.processed ++ [t], spent := s.log.spent ++ s.unhosted t }

theorem begun_turn (i : Nat) (σ σ' : Stage) (t : Task) (s mid : Seat) (outcome : Script × Epilogue × Stack)
    (turn : Turn σ σ' s mid) (shows : Seat.Shows i outcome.2.2.hub { mid with hand := s.hand, log := s.log })
    (hand : mid.hand = outcome.2.1 ::ₘ s.hand) (queue : s.loop.queue.toList = t :: mid.loop.queue.toList)
    (log : mid.log = { s.log with processed := s.log.processed ++ [t], spent := s.log.spent ++ s.unhosted t }) :
    Begun i σ σ' t s outcome :=
  ⟨mid, mid, turn, .refl, shows_held i _ _ shows mid.hand mid.log, hand, queue, log⟩

theorem process_log (t : Task) (s : Seat) (hosted : s.unhosted t = []) :
    s.log.process t = { s.log with processed := s.log.processed ++ [t], spent := s.log.spent ++ s.unhosted t } := by
  rw [hosted, List.append_nil]
  rfl

variable (i : Nat) (s : Seat) (stack : Stack) (queue : Fifo Task)
  (shows : Seat.Shows i stack.hub { s with loop := { s.loop with queue := queue } })

include shows

theorem begun_event (e : Event) (waits : s.loop.queue.toList = .event e :: queue.toList) :
    Begun i .ready .busy (.event e) s (stack.startEvent i e) := by
  have freed := shows_modify i stack.hub _ shows RunLoop.freeEvent
  have place : (stack.modifyLoop i RunLoop.freeEvent).loop? i = some { s.loop with queue := queue }.freeEvent := freed.place
  unfold Stack.startEvent
  simp only [place, Option.bind_some]
  split
  · next absent =>
      have counted := shows_missed i _ _ (shows_call i _ _ (shows_modify i _ _ freed RunLoop.countDropped) (.drop e)) e
      obtain ⟨after, shown, grows⟩ := Hub.grows_discard i _ _ e (Hub.grows_refl i _) _
        (shows_held i _ _ counted (.nothing ::ₘ s.hand) ((s.log.process (.event e)).spend e))
      have missing : s.loop.loaded? e.target = none := absent
      refine ⟨_, after, .miss e queue waits missing, grows, shown, rfl, waits, ?_⟩
      simp [Log.process, Log.spend, unhosted, Task.event?, missing]
  · next badge program found =>
      have loaded : s.loop.loaded? e.target = some ⟨badge, program⟩ := found
      have passed := shows_passed i _ _ (shows_modify i _ _ freed (·.setProgram badge.inst program.nextScript.2)) badge e
      have called := shows_call i _ _ passed (.handle badge program e)
      refine begun_turn i _ _ _ s _ _ (.pass e badge program queue waits loaded) ?_ rfl waits (process_log _ s ?_)
      · cases program <;> exact shows_same i _ _ _ called rfl rfl rfl
      · simp [unhosted, Task.event?, loaded]

theorem begun_job (σ σ' : Stage) (j : Job) (waits : s.loop.queue.toList = .job j :: queue.toList)
    (begins : σ.begin (some (.job j)) = some σ') : Begun i σ σ' (.job j) s (stack.startJob j) := by
  have turn := Turn.job j queue waits begins
  have log : s.log.process (.job j) = _ := process_log _ s rfl
  cases j with
  | user label script => exact begun_turn i σ σ' _ s _ _ turn (shows_same i _ _ _ shows rfl rfl rfl) rfl waits log
  | handBack k n callback payload =>
      refine begun_turn i σ σ' _ s _ _ turn ?_ rfl waits log
      exact shows_record i _ _ _ nofun (shows_same i _ _ _ shows rfl rfl rfl)
  | retry k n =>
      obtain ⟨after, shown, grows⟩ := Hub.grows_retry i _ stack.hub k (Hub.grows_refl i _) _
        (shows_held i _ _ shows (.countJob ::ₘ s.hand) (s.log.process (.job (.retry k n))))
      exact ⟨_, after, turn, grows, shown, rfl, waits, log⟩

theorem begun_load (badge : Badge) (program : Program Action)
    (waits : s.loop.queue.toList = .load badge program :: queue.toList) :
    Begun i .ready .busy (.load badge program) s (stack.startLoad i badge program) := by
  have place : stack.loop? i = some { s.loop with queue := queue } := shows.place
  have log : s.log.process (.load badge program) = _ := process_log _ s rfl
  unfold Stack.startLoad
  rw [place, Option.bind_some]
  split
  · next b known =>
      have idle : s.Idle (.load badge program) := Option.isSome_of_eq_some known
      exact begun_turn i _ _ _ s _ _ (.skip _ queue waits idle) (shows_same i _ _ _ shows rfl rfl rfl) rfl waits log
  · next fresh =>
      refine begun_turn i _ _ _ s _ _ (.load badge program queue waits fresh) ?_ rfl waits log
      have called := shows_call i _ _ shows (.start badge program)
      unfold Stack.noteStart
      split <;> exact shows_same i _ _ _ called rfl rfl rfl

theorem begun_unload (app : AppId) (waits : s.loop.queue.toList = .unload app :: queue.toList) :
    Begun i .ready .busy (.unload app) s (stack.startUnload i app) := by
  have place : stack.loop? i = some { s.loop with queue := queue } := shows.place
  have log : s.log.process (.unload app) = _ := process_log _ s rfl
  unfold Stack.startUnload
  rw [place, Option.bind_some]
  split
  · next unknown =>
      exact begun_turn i _ _ _ s _ _ (.skip _ queue waits unknown) (shows_same i _ _ _ shows rfl rfl rfl) rfl waits log
  · next badge known =>
      have struck := shows_modify i stack.hub _ shows (·.strike app)
      have place : (stack.modifyLoop i (·.strike app)).loop? i = some ({ s.loop with queue := queue }.strike app) := struck.place
      simp only
      rw [place, Option.bind_some]
      split
      · next absent => exact begun_turn i _ _ _ s _ _ (.strike app badge queue waits known absent) struck rfl waits log
      · next a loaded =>
          refine begun_turn i _ _ _ s _ _ (.unload app badge a queue waits known loaded) ?_ rfl waits log
          have called := shows_call i _ _ (shows_modify i _ _ struck (·.evict badge.inst)) (.close a.badge a.program)
          unfold Stack.noteEnd
          split <;> exact shows_same i _ _ _ called rfl rfl rfl

omit shows in
theorem begin_ready (σ σ' : Stage) (t : Task) (plain : t.isJob = false) (begins : σ.begin (some t) = some σ') :
    σ = .ready ∧ σ' = .busy := by
  cases σ with
  | ready => exact ⟨rfl, (Option.some.inj begins).symm⟩
  | draining => cases t <;> simp_all [Stage.begin, Task.isJob]
  | busy | ending | sweeping | gone => cases begins

theorem begun_task (σ σ' : Stage) (t : Task) (waits : s.loop.queue.toList = t :: queue.toList)
    (begins : σ.begin (some t) = some σ') : Begun i σ σ' t s (stack.startTask i t) := by
  cases t with
  | job j => exact begun_job i s stack queue shows σ σ' j waits begins
  | event e =>
      obtain ⟨rfl, rfl⟩ := begin_ready σ σ' _ rfl begins
      exact begun_event i s stack queue shows e waits
  | load badge program =>
      obtain ⟨rfl, rfl⟩ := begin_ready σ σ' _ rfl begins
      exact begun_load i s stack queue shows badge program waits
  | unload app =>
      obtain ⟨rfl, rfl⟩ := begin_ready σ σ' _ rfl begins
      exact begun_unload i s stack queue shows app waits
  | stop =>
      obtain ⟨rfl, rfl⟩ := begin_ready σ σ' _ rfl begins
      exact begun_turn i _ _ _ s _ _ (.skip .stop queue waits trivial) shows rfl waits (process_log _ s rfl)

omit shows

theorem shows_next (t : Task) (next : Stack) (shows : s.Shows i stack.hub) (taken : stack.next? i = some (t, next)) :
    ∃ queue, s.loop.queue.toList = t :: queue.toList ∧
      Seat.Shows i next.hub { s with loop := { s.loop with queue := queue } } := by
  obtain ⟨l, queue, place, waits, rfl⟩ := Stack.next_cases i t stack next taken
  have same : s.loop = l := Option.some.inj (shows.place.symm.trans place)
  subst same
  exact ⟨queue, waits, shows_set i stack.hub s shows { s.loop with queue := queue }⟩

theorem shows_quit (place : Nat) (a : Loaded) (shows : s.Shows i stack.hub) (there : s.loop.leaving[place]? = some a) :
    Seat.Shows i (stack.quit i place).2.hub { s with
      loop := s.loop.dismiss place
      calls := s.calls ++ [.close a.badge a.program] } := by
  have called := shows_call i _ _ (shows_modify i _ _ shows (·.dismiss place)) (.close a.badge a.program)
  have here : stack.loop? i = some s.loop := shows.place
  have left : (stack.leaving i)[place]? = some a := by
    rw [Stack.leaving, here]
    exact there
  simp only [Stack.quit, left]
  unfold Stack.noteEnd
  split <;> exact shows_same i _ _ _ called rfl rfl rfl

theorem finish_turn (σ σ' : Stage) (rest : Epilogue) (hand : Multiset Epilogue) (shows : s.Shows i stack.hub)
    (held : s.hand = rest ::ₘ hand) (concludes : σ.conclude = some σ') :
    ∃ mid after : Seat, Turn σ σ' s mid ∧ mid.Grows after ∧ after.Shows i (stack.finishTask i rest).hub ∧ mid.hand = hand ∧
      mid.loop.queue = s.loop.queue ∧ mid.log = { s.log with spent := s.log.spent ++ rest.event?.toList } ∧
      (mid.loop.apps = s.loop.apps ∨ ∃ badge program, rest = .install badge program ∧
        mid.loop.apps = RunLoop.placeApp ⟨badge, program.afterStart⟩ s.loop.apps) := by
  have counted : ∀ (stack : Stack), s.Shows i stack.hub →
      Seat.Shows i (stack.modifyLoop i RunLoop.countJob).hub { s with loop := s.loop.countJob, hand := hand } :=
    fun stack shown => shows_held i _ _ (shows_modify i _ _ shown RunLoop.countJob) hand s.log
  cases rest with
  | nothing =>
      have shown := shows_held i _ _ shows hand s.log
      exact ⟨_, _, .quit hand held concludes, .refl, shown, rfl, rfl, by simp [Epilogue.event?], .inl rfl⟩
  | install badge program =>
      cases starts : program.starts with
      | true =>
          have shown := shows_call i _ _
            (shows_held i _ _ (shows_modify i _ _ shows (·.install ⟨badge, program.afterStart⟩)) hand s.log) (.answer badge true)
          refine ⟨_, _, .install badge program hand held starts concludes, .refl, ?_, rfl, rfl, by simp [Epilogue.event?],
            .inr ⟨badge, program, rfl, rfl⟩⟩
          simp only [Stack.finishTask, starts]
          exact shown
      | false =>
          have shown := shows_call i _ _ (shows_held i _ _ shows hand s.log) (.answer badge false)
          refine ⟨_, _, .decline badge program hand held starts concludes, .refl, ?_, rfl, rfl, by simp [Epilogue.event?], .inl rfl⟩
          simp only [Stack.finishTask, starts]
          exact shown
  | consume e =>
      have shown := shows_held i _ _ (shows_modify i _ _ shows RunLoop.countDelivered) hand (s.log.spend e)
      obtain ⟨after, shows', grows⟩ := Hub.grows_discard i _ _ e (Hub.grows_refl i _) _ shown
      exact ⟨_, after, .consume e hand held concludes, grows, shows', rfl, rfl, rfl, .inl rfl⟩
  | countJob =>
      exact ⟨_, _, .count _ hand held rfl concludes, .refl, counted stack shows, rfl, rfl, by simp [Epilogue.event?], .inl rfl⟩
  | giveBack k =>
      -- Handing the slot back leaves the loops alone, so the count may as well come first.
      have released := Hub.reclaim_cases (stack.hub.count RelayTally.countInvoked) k
      obtain ⟨journal, released⟩ := released
      have shown : s.Shows i ((stack.hub.count RelayTally.countInvoked).reclaim k) := by
        rw [released]
        exact shows_same i _ _ _ shows rfl rfl rfl
      exact ⟨_, _, .count _ hand held rfl concludes, .refl, counted (stack.onHub fun h =>
        (h.count RelayTally.countInvoked).reclaim k) shown, rfl, rfl, by simp [Epilogue.event?], .inl rfl⟩

theorem drop_turn (t : Task) (next : Stack) (shows : s.Shows i stack.hub) (taken : stack.next? i = some (t, next))
    (plain : t.isJob = false) :
    ∃ mid after : Seat, Turn .draining .draining s mid ∧ mid.Grows after ∧ after.Shows i (stack.dropTask i).hub ∧
      mid.hand = s.hand ∧ s.loop.queue.toList = t :: mid.loop.queue.toList ∧
      mid.log = { s.log with spent := s.log.spent ++ t.event?.toList } := by
  obtain ⟨queue, waits, popped⟩ := shows_next i s stack t next shows taken
  cases t with
  | event e =>
      have dropped := shows_drained i _ _
        (shows_call i _ _ (shows_modify i _ _ popped fun l => l.freeEvent.countDropped) (.drop e)) e
      obtain ⟨after, shows', grows⟩ := Hub.grows_discard i _ _ e (Hub.grows_refl i _) _
        (shows_held i _ _ dropped s.hand (s.log.spend e))
      refine ⟨_, after, .drain e queue waits, grows, ?_, rfl, waits, rfl⟩
      rw [Stack.dropTask, taken]
      exact shows'
  | job j => cases plain
  | load | unload | stop =>
      refine ⟨_, _, .drop _ queue waits rfl rfl, .refl, ?_, rfl, waits, by simp [Task.event?]⟩
      rw [Stack.dropTask, taken]
      exact popped

end Seat

end HubRelay
