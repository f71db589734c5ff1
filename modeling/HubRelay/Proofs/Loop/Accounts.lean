import HubRelay.Proofs.Loop.Moves

/-! The books of a loop: its queue and its tallies against what it accepted, what it processed, and what became
of its events, at each stage. -/

set_option autoImplicit false

namespace HubRelay

namespace Stage

def isOpen : Stage → Bool
  | .ready | .busy => true
  | _ => false

def isBare : Stage → Bool
  | .draining | .sweeping | .gone => true
  | _ => false

def load : Stage → Nat
  | .busy | .sweeping => 1
  | _ => 0

end Stage

def eventsOf (tasks : List Task) : Multiset Event := (tasks.filterMap Task.event? : List Event)

theorem eventsOf_append (tasks more : List Task) : eventsOf (tasks ++ more) = eventsOf tasks + eventsOf more := by
  rw [eventsOf, List.filterMap_append, ← Multiset.coe_add]
  rfl

namespace Seat

def handled (s : Seat) : Multiset Event := s.hand.filterMap Epilogue.event?

def settled (s : Seat) : Multiset Event := (s.passed ++ s.missed ++ s.drained : List Event)

/-- How the loop looks at each stage. -/
structure Fits (σ : Stage) (s : Seat) : Prop where
  hand : s.hand.card = σ.load
  stopped : σ.isOpen = false → s.loop.stopped = true
  apps : σ.isOpen = false → s.loop.apps = []
  sweeping : σ = .sweeping → ∀ rest ∈ s.hand, rest.isJob = true
  roster : σ.isBare = true → s.loop.roster = []
  gone : σ = .gone → s.loop.attached = false ∧ s.loop.queue.toList = []

structure Balanced (s : Seat) : Prop where
  queued : s.loop.queuedEvents = s.loop.queue.toList.countP Task.isEvent
  events : eventsOf s.log.accepted = eventsOf s.loop.queue.toList + s.settled
  spent : (s.log.spent : Multiset Event) + s.handled = s.settled
  delivered : s.loop.tally.delivered + s.handled.card = s.passed.length
  dropped : s.loop.tally.dropped = s.missed.length + s.drained.length
  jobs : s.loop.tally.jobsRun + s.hand.countP (·.isJob) = s.log.processed.countP Task.isJob

def InOrder (s : Seat) : Prop := s.log.accepted = s.log.processed ++ s.loop.queue.toList

theorem fits_grow (σ : Stage) (s s' : Seat) (grow : s.Grow s') (fits : s.Fits σ) : s'.Fits σ := by
  obtain ⟨hand, stopped, apps, sweeping, roster, gone⟩ := fits
  have taking : ∀ (t : Task) (l next : RunLoop), l.stopped = s.loop.stopped → l.enqueue t = .ok next → σ ≠ .gone := by
    rintro t l next flag taken rfl
    rw [RunLoop.enqueue, flag, stopped rfl] at taken
    cases taken
  cases grow with
  | steer owner stopRequested => exact ⟨hand, stopped, apps, sweeping, roster, gone⟩
  | halt attached =>
      refine ⟨hand, stopped, apps, sweeping, roster, fun last => ?_⟩
      rw [(gone last).1] at attached
      cases attached
  | accept t l plain taken =>
      have closed := taking t s.loop l rfl taken
      rw [RunLoop.enqueue_cases t s.loop l taken]
      exact ⟨hand, stopped, apps, sweeping, roster, fun last => absurd last closed⟩
  | request badge issued => exact ⟨hand, stopped, apps, sweeping, roster, gone⟩
  | load badge program l issued taken =>
      have closed := taking _ s.loop.issue.2 l rfl taken
      rw [RunLoop.enqueue_cases _ _ l taken]
      exact ⟨hand, stopped, apps, sweeping, roster, fun last => absurd last closed⟩

theorem queued_push (t : Task) (l next : RunLoop) (taken : l.enqueue t = .ok next)
    (queued : l.queuedEvents = l.queue.toList.countP Task.isEvent) :
    next.queuedEvents = next.queue.toList.countP Task.isEvent := by
  rw [RunLoop.enqueue_cases t l next taken]
  cases event : t.isEvent <;> simp [queued, event]

theorem events_push (t : Task) (accepted : List Task) (queue : Fifo Task) (settled : Multiset Event)
    (events : eventsOf accepted = eventsOf queue.toList + settled) :
    eventsOf (accepted ++ [t]) = eventsOf (queue.push t).toList + settled := by
  rw [Fifo.toList_push, eventsOf_append, eventsOf_append, events, add_right_comm]

theorem balanced_grow (s s' : Seat) (grow : s.Grow s') (balanced : s.Balanced) : s'.Balanced := by
  obtain ⟨queued, events, spent, delivered, dropped, jobs⟩ := balanced
  cases grow with
  | steer owner stopRequested => exact ⟨queued, events, spent, delivered, dropped, jobs⟩
  | halt attached =>
      refine ⟨?_, events_push .stop _ _ _ events, spent, delivered, dropped, jobs⟩
      simpa [Task.isEvent] using queued
  | accept t l plain taken =>
      have pushed := queued_push t s.loop l taken queued
      rw [RunLoop.enqueue_cases t s.loop l taken] at pushed ⊢
      exact ⟨pushed, events_push t _ _ _ events, spent, delivered, dropped, jobs⟩
  | request badge issued => exact ⟨queued, events, spent, delivered, dropped, jobs⟩
  | load badge program l issued taken =>
      have pushed := queued_push _ _ l taken queued
      rw [RunLoop.enqueue_cases _ _ l taken] at pushed ⊢
      exact ⟨pushed, events_push _ _ _ _ events, spent, delivered, dropped, jobs⟩

theorem order_grow (s s' : Seat) (grows : s.Grow s') (order : s.InOrder) : s'.InOrder := by
  obtain ⟨-, more, queue, log⟩ := grows_queue s s' (.single grows)
  rw [InOrder, log, queue, ← List.append_assoc]
  exact congrArg (· ++ more) order

theorem begin_load (σ σ' : Stage) (t : Task) (begins : σ.begin (some t) = some σ') :
    σ.load = 0 ∧ σ'.load = 1 ∧ σ'.isOpen = σ.isOpen ∧ σ'.isBare = σ.isBare ∧ σ' ≠ .gone ∧
      (σ' = .sweeping → t.isJob = true) := by
  cases σ with
  | ready =>
      cases begins
      simp [Stage.load, Stage.isOpen, Stage.isBare]
  | draining =>
      cases t with
      | job j =>
          cases begins
          simp [Stage.load, Stage.isOpen, Stage.isBare, Task.isJob]
      | _ => cases begins
  | busy | ending | sweeping | gone => cases begins

theorem conclude_load (σ σ' : Stage) (concludes : σ.conclude = some σ') :
    σ.load = 1 ∧ σ'.load = 0 ∧ σ'.isOpen = σ.isOpen ∧ σ'.isBare = σ.isBare ∧ σ' ≠ .gone ∧ σ' ≠ .sweeping ∧
      (σ.isOpen = false → σ = .sweeping) := by
  cases σ <;> cases concludes <;> simp [Stage.load, Stage.isOpen, Stage.isBare]

theorem fits_idle (σ : Stage) (s : Seat) (fits : s.Fits σ) (idle : σ.load = 0) : s.hand = 0 :=
  Multiset.card_eq_zero.mp (fits.hand.trans idle)

theorem fits_alone (σ σ' : Stage) (s : Seat) (rest : Epilogue) (hand : Multiset Epilogue) (fits : s.Fits σ)
    (concludes : σ.conclude = some σ') (held : s.hand = rest ::ₘ hand) : hand = 0 := by
  have card := fits.hand
  rw [held, Multiset.card_cons, (conclude_load σ σ' concludes).1] at card
  exact Multiset.card_eq_zero.mp (Nat.succ.inj card)

theorem fits_begin (σ σ' : Stage) (t : Task) (s s' : Seat) (rest : Epilogue) (begins : σ.begin (some t) = some σ')
    (fits : s.Fits σ) (hand : s'.hand = rest ::ₘ s.hand) (job : t.isJob = true → rest.isJob = true)
    (stopped : s'.loop.stopped = s.loop.stopped) (apps : s.loop.apps = [] → s'.loop.apps = [])
    (roster : s.loop.roster = [] → s'.loop.roster = []) : s'.Fits σ' := by
  obtain ⟨idle, busy, same, bare, staying, sweeping⟩ := begin_load σ σ' t begins
  have empty := fits_idle σ s fits idle
  refine ⟨?_, ?_, ?_, ?_, ?_, fun gone => absurd gone staying⟩
  · rw [hand, empty, busy]
    rfl
  · exact fun closed => stopped.trans (fits.stopped (same ▸ closed))
  · exact fun closed => apps (fits.apps (same ▸ closed))
  · intro sweeps
    rw [hand, empty]
    exact fun other member => Multiset.mem_singleton.mp member ▸ job (sweeping sweeps)
  · exact fun cleared => roster (fits.roster (bare ▸ cleared))

theorem fits_conclude (σ σ' : Stage) (s s' : Seat) (rest : Epilogue) (concludes : σ.conclude = some σ') (fits : s.Fits σ)
    (held : s.hand = rest ::ₘ s'.hand) (stopped : s'.loop.stopped = s.loop.stopped)
    (apps : rest.isJob = true → s'.loop.apps = s.loop.apps) (roster : rest.isJob = true → s'.loop.roster = s.loop.roster) :
    s'.Fits σ' := by
  obtain ⟨-, idle, same, bare, staying, calm, swept⟩ := conclude_load σ σ' concludes
  have job : σ.isOpen = false → rest.isJob = true := fun closed =>
    fits.sweeping (swept closed) rest (by rw [held]; exact Multiset.mem_cons_self rest _)
  have closed : σ.isBare = true → σ.isOpen = false := by cases σ <;> simp [Stage.isBare, Stage.isOpen]
  refine ⟨?_, ?_, ?_, fun sweeps => absurd sweeps calm, ?_, fun gone => absurd gone staying⟩
  · rw [fits_alone σ σ' s rest s'.hand fits concludes held, idle]
    rfl
  · exact fun shut => stopped.trans (fits.stopped (same ▸ shut))
  · exact fun shut => (apps (job (same ▸ shut))).trans (fits.apps (same ▸ shut))
  · exact fun cleared => (roster (job (closed (bare ▸ cleared)))).trans (fits.roster (bare ▸ cleared))

theorem fits_open (σ : Stage) (s : Seat) (opened : σ.isOpen = true) (hand : s.hand.card = σ.load) : s.Fits σ := by
  have never : σ.isOpen ≠ false := by simp [opened]
  refine ⟨hand, fun closed => absurd closed never, fun closed => absurd closed never, fun sweeps => ?_, fun bare => ?_,
    fun gone => ?_⟩
  · subst sweeps
    cases opened
  · cases σ <;> simp_all [Stage.isOpen, Stage.isBare]
  · subst gone
    cases opened

theorem fits_draining (s : Seat) (hand : s.hand.card = 0) (stopped : s.loop.stopped = true) (apps : s.loop.apps = [])
    (roster : s.loop.roster = []) : s.Fits .draining := by
  refine ⟨hand, fun _ => stopped, fun _ => apps, fun sweeps => ?_, fun _ => roster, fun gone => ?_⟩
  · cases sweeps
  · cases gone

theorem fits_ending (s : Seat) (hand : s.hand.card = 0) (stopped : s.loop.stopped = true) (apps : s.loop.apps = []) :
    s.Fits .ending := by
  refine ⟨hand, fun _ => stopped, fun _ => apps, fun sweeps => ?_, fun bare => ?_, fun gone => ?_⟩
  · cases sweeps
  · cases bare
  · cases gone

theorem fits_turn (σ σ' : Stage) (s s' : Seat) (turn : Turn σ σ' s s') (fits : s.Fits σ) : s'.Fits σ' := by
  cases turn with
  | rest => exact fits
  | pass e badge program queue waits loaded =>
      exact fits_begin _ _ (.event e) s _ _ rfl fits rfl (by simp [Task.isJob]) rfl (fun none => by simp [RunLoop.setProgram,
        RunLoop.freeEvent, none]) id
  | miss e queue waits absent => exact fits_begin _ _ (.event e) s _ _ rfl fits rfl (by simp [Task.isJob]) rfl id id
  | job j queue waits begins =>
      refine fits_begin _ _ _ s _ _ begins fits rfl ?_ rfl id id
      cases j <;> simp [Job.epilogue, Epilogue.isJob]
  | load badge program queue waits fresh =>
      exact fits_begin _ _ (.load badge program) s _ _ rfl fits rfl (by simp [Task.isJob]) rfl id id
  | unload app badge a queue waits known loaded =>
      exact fits_begin _ _ (.unload app) s _ _ rfl fits rfl (by simp [Task.isJob]) rfl
        (fun none => by simp [RunLoop.evict, RunLoop.strike, none]) (fun none => by simp [RunLoop.evict, RunLoop.strike, none])
  | strike app badge queue waits known absent =>
      exact fits_begin _ _ (.unload app) s _ _ rfl fits rfl (by simp [Task.isJob]) rfl id
        (fun none => by simp [RunLoop.strike, none])
  | skip t queue waits idle =>
      have plain : t.isJob = false := by cases t <;> simp_all [Idle, Task.isJob]
      exact fits_begin _ _ t s _ _ rfl fits rfl (by simp [plain]) rfl id id
  | install badge program hand held starts concludes =>
      exact fits_conclude σ σ' s _ _ concludes fits held rfl (by simp [Epilogue.isJob]) (by simp [Epilogue.isJob])
  | decline badge program hand held refuses concludes =>
      exact fits_conclude σ σ' s _ _ concludes fits held rfl (fun _ => rfl) fun _ => rfl
  | quit hand held concludes => exact fits_conclude σ σ' s _ _ concludes fits held rfl (fun _ => rfl) fun _ => rfl
  | consume e hand held concludes => exact fits_conclude σ σ' s _ _ concludes fits held rfl (fun _ => rfl) fun _ => rfl
  | count rest hand held job concludes =>
      exact fits_conclude σ σ' s _ rest concludes fits held rfl (fun _ => rfl) fun _ => rfl
  | shut => exact fits_ending _ fits.hand rfl rfl
  | dismiss => exact fits_ending _ fits.hand (fits.stopped rfl) (fits.apps rfl)
  | clear => exact fits_draining _ fits.hand (fits.stopped rfl) (fits.apps rfl) rfl
  | drain | drop => exact fits_draining _ fits.hand (fits.stopped rfl) (fits.apps rfl) (fits.roster rfl)
  | leave done =>
      refine ⟨fits.hand, fun _ => fits.stopped rfl, fun _ => fits.apps rfl, fun sweeps => ?_, fun _ => fits.roster rfl,
        fun _ => ⟨rfl, done⟩⟩
      cases sweeps

theorem order_turn (σ σ' : Stage) (s s' : Seat) (turn : Turn σ σ' s s') (order : σ.isOpen = true → s.InOrder)
    (still : σ'.isOpen = true) : s'.InOrder := by
  have begun : ∀ (t : Task) (queue : Fifo Task), σ.isOpen = true → s.loop.queue.toList = t :: queue.toList →
      s.log.accepted = s.log.processed ++ [t] ++ queue.toList := by
    intro t queue opened waits
    rw [List.append_assoc, List.singleton_append, ← waits]
    exact order opened
  have kept : σ'.isOpen = σ.isOpen → s.InOrder := fun same => order (same ▸ still)
  cases turn with
  | rest => exact order still
  | pass e badge program queue waits loaded => exact begun _ queue rfl waits
  | miss e queue waits absent => exact begun _ queue rfl waits
  | job j queue waits begins => exact begun _ queue ((begin_load _ _ _ begins).2.2.1 ▸ still) waits
  | load badge program queue waits fresh => exact begun _ queue rfl waits
  | unload app badge a queue waits known loaded => exact begun _ queue rfl waits
  | strike app badge queue waits known absent => exact begun _ queue rfl waits
  | skip t queue waits idle => exact begun t queue rfl waits
  | install badge program hand held starts concludes => exact kept (conclude_load _ _ concludes).2.2.1
  | decline badge program hand held refuses concludes => exact kept (conclude_load _ _ concludes).2.2.1
  | quit hand held concludes => exact kept (conclude_load _ _ concludes).2.2.1
  | consume e hand held concludes => exact kept (conclude_load _ _ concludes).2.2.1
  | count rest hand held job concludes => exact kept (conclude_load _ _ concludes).2.2.1
  | shut | dismiss | clear | drain | drop | leave => cases still

theorem filterMap_held {β : Type} (f : Epilogue → Option β) (rest : Epilogue) (hand : Multiset Epilogue) :
    (rest ::ₘ hand).filterMap f = ((f rest).toList : Multiset β) + hand.filterMap f := by
  rw [Multiset.filterMap_cons]
  cases f rest <;> rfl

theorem events_pop (e : Event) (accepted : List Task) (queue rest : List Task) (settled : Multiset Event)
    (waits : queue = .event e :: rest) (events : eventsOf accepted = eventsOf queue + settled) :
    eventsOf accepted = eventsOf rest + e ::ₘ settled := by
  rw [events, waits, Multiset.add_cons, ← Multiset.cons_add]
  rfl

theorem events_skip (t : Task) (accepted : List Task) (queue rest : List Task) (settled : Multiset Event)
    (plain : t.event? = none) (waits : queue = t :: rest) (events : eventsOf accepted = eventsOf queue + settled) :
    eventsOf accepted = eventsOf rest + settled := by
  rw [events, waits, eventsOf, eventsOf, List.filterMap_cons_none plain]

theorem queued_skip (t : Task) (count : Nat) (queue rest : List Task) (plain : t.event? = none) (waits : queue = t :: rest)
    (queued : count = queue.countP Task.isEvent) : count = rest.countP Task.isEvent := by
  rw [queued, waits, List.countP_cons_of_neg]
  cases t <;> simp_all [Task.isEvent, Task.event?]

theorem queued_pop (e : Event) (count : Nat) (queue rest : List Task) (waits : queue = .event e :: rest)
    (queued : count = queue.countP Task.isEvent) : count - 1 = rest.countP Task.isEvent := by
  rw [queued, waits, List.countP_cons_of_pos rfl, Nat.add_sub_cancel]

theorem settled_missed (e : Event) (passed missed drained : List Event) :
    ((passed ++ e :: missed ++ drained : List Event) : Multiset Event) = e ::ₘ ↑(passed ++ missed ++ drained) := by
  rw [List.append_assoc, List.append_assoc]
  exact Multiset.coe_eq_coe.mpr List.perm_middle

theorem settled_drained (e : Event) (passed missed drained : List Event) :
    ((passed ++ missed ++ e :: drained : List Event) : Multiset Event) = e ::ₘ ↑(passed ++ missed ++ drained) :=
  Multiset.coe_eq_coe.mpr List.perm_middle

theorem balanced_begin (t : Task) (queue : Fifo Task) (rest : Epilogue) (s s' : Seat) (balanced : s.Balanced)
    (waits : s.loop.queue.toList = t :: queue.toList) (plain : t.event? = none) (silent : rest.event? = none)
    (queue' : s'.loop.queue = queue) (hand : s'.hand = rest ::ₘ s.hand)
    (loop : s'.loop.queuedEvents = s.loop.queuedEvents ∧ s'.loop.tally = s.loop.tally)
    (told : s'.passed = s.passed ∧ s'.missed = s.missed ∧ s'.drained = s.drained) (log : s'.log = s.log.process t)
    (job : rest.isJob = t.isJob) : s'.Balanced := by
  obtain ⟨queued, events, spent, delivered, dropped, jobs⟩ := balanced
  obtain ⟨events', tally⟩ := loop
  obtain ⟨passed, missed, drained⟩ := told
  have handled : s'.handled = s.handled := by
    rw [Seat.handled, hand, filterMap_held, silent]
    exact zero_add _
  have settled : s'.settled = s.settled := by rw [Seat.settled, passed, missed, drained, Seat.settled]
  constructor
  · rw [events', queue']
    exact queued_skip t _ _ _ plain waits queued
  · rw [log, queue', settled]
    exact events_skip t _ _ _ _ plain waits events
  · rw [log, handled, settled]
    exact spent
  · rw [tally, handled, passed]
    exact delivered
  · rw [tally, missed, drained]
    exact dropped
  · rw [tally, hand, log, Log.process, List.countP_append, ← jobs, Multiset.countP_cons]
    cases kind : t.isJob <;> simp [job, kind, Nat.add_assoc]

theorem balanced_turn (σ σ' : Stage) (s s' : Seat) (turn : Turn σ σ' s s') (balanced : s.Balanced) : s'.Balanced := by
  obtain ⟨queued, events, spent, delivered, dropped, jobs⟩ := id balanced
  have idle : ∀ rest hand, s.hand = rest ::ₘ hand → rest.event? = none → rest.isJob = false →
      (s.log.spent : Multiset Event) + hand.filterMap Epilogue.event? = s.settled ∧
        s.loop.tally.delivered + (hand.filterMap Epilogue.event?).card = s.passed.length ∧
        s.loop.tally.jobsRun + hand.countP (·.isJob) = s.log.processed.countP Task.isJob := by
    intro rest hand held silent plain
    have handled : s.handled = hand.filterMap Epilogue.event? := by
      rw [Seat.handled, held, filterMap_held, silent]
      exact zero_add _
    rw [← handled]
    refine ⟨spent, delivered, ?_⟩
    rw [← jobs, held, Multiset.countP_cons_of_neg _ (by simp [plain])]
  cases turn with
  | rest => exact balanced
  | pass e badge program queue waits loaded =>
      refine ⟨queued_pop e _ _ _ waits queued, events_pop e _ _ _ _ waits events, ?_, ?_, dropped, ?_⟩
      · rw [Seat.handled, filterMap_held, add_left_comm]
        exact congrArg (_ + ·) spent
      · rw [Seat.handled, filterMap_held, Multiset.card_add, List.length_cons, ← delivered]
        exact Nat.add_left_comm _ _ _ |>.trans (Nat.add_comm _ _)
      · rw [Log.process, List.countP_append, Multiset.countP_cons_of_neg _ (by simp [Epilogue.isJob])]
        exact jobs
  | miss e queue waits absent =>
      refine ⟨queued_pop e _ _ _ waits queued, ?_, ?_, ?_, ?_, ?_⟩
      · rw [Seat.settled, settled_missed]
        exact events_pop e _ _ _ _ waits events
      · rw [Seat.handled, filterMap_held, Seat.settled, settled_missed]
        simp only [Log.spend, Log.process, ← Multiset.coe_add]
        rw [add_right_comm]
        exact (congrArg (· + _) ((congrArg _ (zero_add _)).trans spent)).trans (add_comm _ _)
      · rw [Seat.handled, filterMap_held, Multiset.card_add]
        exact (congrArg _ (Nat.zero_add _)).trans delivered
      · simp only [RunLoop.countDropped, RunLoop.freeEvent, dropped, List.length_cons]
        exact Nat.add_right_comm _ _ _
      · rw [Log.spend, Log.process, List.countP_append, Multiset.countP_cons_of_neg _ (by simp [Epilogue.isJob])]
        exact jobs
  | job j queue waits begins =>
      exact balanced_begin _ queue j.epilogue s _ balanced waits rfl (by cases j <;> rfl) rfl rfl ⟨rfl, rfl⟩ ⟨rfl, rfl, rfl⟩ rfl
        (by cases j <;> rfl)
  | load badge program queue waits fresh =>
      exact balanced_begin _ queue _ s _ balanced waits rfl rfl rfl rfl ⟨rfl, rfl⟩ ⟨rfl, rfl, rfl⟩ rfl rfl
  | unload app badge a queue waits known loaded =>
      exact balanced_begin _ queue _ s _ balanced waits rfl rfl rfl rfl ⟨rfl, rfl⟩ ⟨rfl, rfl, rfl⟩ rfl rfl
  | strike app badge queue waits known absent =>
      exact balanced_begin _ queue _ s _ balanced waits rfl rfl rfl rfl ⟨rfl, rfl⟩ ⟨rfl, rfl, rfl⟩ rfl rfl
  | skip t queue waits idle =>
      have plain : t.event? = none ∧ t.isJob = false := by cases t <;> simp_all [Idle, Task.event?, Task.isJob]
      exact balanced_begin t queue .nothing s _ balanced waits plain.1 rfl rfl rfl ⟨rfl, rfl⟩ ⟨rfl, rfl, rfl⟩ rfl plain.2.symm
  | install badge program hand held starts concludes =>
      obtain ⟨spent', delivered', jobs'⟩ := idle _ hand held rfl rfl
      exact ⟨queued, events, spent', delivered', dropped, jobs'⟩
  | decline badge program hand held refuses concludes =>
      obtain ⟨spent', delivered', jobs'⟩ := idle _ hand held rfl rfl
      exact ⟨queued, events, spent', delivered', dropped, jobs'⟩
  | quit hand held concludes =>
      obtain ⟨spent', delivered', jobs'⟩ := idle _ hand held rfl rfl
      exact ⟨queued, events, spent', delivered', dropped, jobs'⟩
  | consume e hand held concludes =>
      rw [Seat.handled, held, filterMap_held] at spent delivered
      refine ⟨queued, events, ?_, ?_, dropped, ?_⟩
      · simp only [Log.spend, ← Multiset.coe_add]
        rw [add_assoc]
        exact spent
      · rw [Multiset.card_add] at delivered
        exact (Nat.add_assoc _ _ _).trans delivered
      · rw [held, Multiset.countP_cons_of_neg _ (by simp [Epilogue.isJob])] at jobs
        exact jobs
  | count rest hand held job concludes =>
      have silent : rest.event? = none := by cases rest <;> simp_all [Epilogue.event?, Epilogue.isJob]
      have handled : s.handled = hand.filterMap Epilogue.event? := by
        rw [Seat.handled, held, filterMap_held, silent]
        exact zero_add _
      rw [handled] at spent delivered
      refine ⟨queued, events, spent, delivered, dropped, ?_⟩
      rw [held, Multiset.countP_cons_of_pos _ (by simpa using job)] at jobs
      rw [← jobs]
      exact Nat.add_right_comm _ _ _
  | shut | dismiss | clear | leave => exact ⟨queued, events, spent, delivered, dropped, jobs⟩
  | drain e queue waits =>
      refine ⟨queued_pop e _ _ _ waits queued, ?_, ?_, delivered, ?_, jobs⟩
      · rw [Seat.settled, settled_drained]
        exact events_pop e _ _ _ _ waits events
      · rw [Seat.settled, settled_drained]
        simp only [Log.spend, ← Multiset.coe_add]
        rw [add_right_comm]
        exact (congrArg (· + _) spent).trans (add_comm _ _)
      · simp only [RunLoop.countDropped, RunLoop.freeEvent, dropped, List.length_cons]
        exact Nat.add_assoc _ _ _
  | drop t queue waits job event =>
      exact ⟨queued_skip t _ _ _ event waits queued, events_skip t _ _ _ _ event waits events, spent, delivered, dropped, jobs⟩

end Seat

end HubRelay
