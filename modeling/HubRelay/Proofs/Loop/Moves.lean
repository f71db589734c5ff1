import HubRelay.Proofs.Loop.Turns

/-! Every move of a scene is a turn of a loop that is watched, or passes it by, and then lets others add to it. -/

set_option autoImplicit false

namespace HubRelay

namespace Scene

variable (i : Nat) (c : Scene) (s : Seat)

theorem underway_cons (stack : Stack) (j : Nat) (rest : Epilogue) (hand : List (Nat × Epilogue)) :
    (Scene.mk stack ((j, rest) :: hand)).underway i =
      if j = i then rest :: (Scene.mk stack hand).underway i else (Scene.mk stack hand).underway i := by
  by_cases here : j = i <;> simp [underway, here]

theorem underway_erase (place j : Nat) (rest : Epilogue) (held : c.hand[place]? = some (j, rest)) (stack : Stack) :
    (c.underway i : Multiset Epilogue) =
      if j = i then rest ::ₘ ((Scene.mk stack (c.hand.eraseIdx place)).underway i : Multiset Epilogue)
      else ((Scene.mk stack (c.hand.eraseIdx place)).underway i : Multiset Epilogue) := by
  obtain ⟨bound, there⟩ := List.getElem?_eq_some_iff.mp held
  have perm := List.getElem_cons_eraseIdx_perm bound
  rw [there] at perm
  have same : (c.underway i : Multiset Epilogue) = (Scene.mk stack ((j, rest) :: c.hand.eraseIdx place)).underway i :=
    Multiset.coe_eq_coe.mpr ((perm.symm.filter _).map _)
  rw [same, underway_cons]
  split <;> rfl

theorem sits_queued (sits : s.Sits i c) : c.queued i = s.loop.queue.toList := by
  have place : c.stack.loop? i = some s.loop := sits.shows.place
  rw [queued, place]
  rfl

theorem sits_leaving (sits : s.Sits i c) : c.stack.leaving i = s.loop.leaving := by
  have place : c.stack.loop? i = some s.loop := sits.shows.place
  rw [Stack.leaving, place]
  rfl

theorem sits_observed (m : Move) (mid after : Seat) (sits : s.Sits i c) (grows : mid.Grows after)
    (shows : after.Shows i (c.move m).stack.hub) (hand : mid.hand = ((c.move m).underway i : Multiset Epilogue))
    (queue : s.loop.queue.toList = c.pops i m ++ mid.loop.queue.toList)
    (log : mid.log = { s.log with
      processed := s.log.processed ++ c.processes i m, spent := s.log.spent ++ c.spends i m }) :
    s.loop.queue.toList = c.pops i m ++ mid.loop.queue.toList ∧ after.Sits i (c.move m) ∧
      after.log = c.observe i m s.log := by
  obtain ⟨kept, more, queue', log'⟩ := Seat.grows_queue mid after grows
  have sits' : after.Sits i (c.move m) := ⟨shows, kept.trans hand⟩
  have accepted : c.accepts i m = more := by
    rw [accepts, sits_queued i _ after sits', sits_queued i c s sits, queue', queue, List.length_append,
      Nat.add_sub_cancel_left]
    exact List.drop_left
  refine ⟨queue, sits', ?_⟩
  rw [log', log, observe, accepted]

def Turned (m : Move) (σ σ' : Stage) : Prop :=
  ∃ mid after : Seat, Seat.Turn σ σ' s mid ∧ mid.Grows after ∧
    s.loop.queue.toList = c.pops i m ++ mid.loop.queue.toList ∧ after.Sits i (c.move m) ∧ after.log = c.observe i m s.log

theorem move_aside (m : Move) (σ : Stage) (sits : s.Sits i c) (grown : c.stack.hub.Grows i (c.move m).stack.hub)
    (hand : ((c.move m).underway i : Multiset Epilogue) = c.underway i) (pops : c.pops i m = [])
    (processes : c.processes i m = []) (spends : c.spends i m = []) :
    c.Turned i s m σ σ := by
  obtain ⟨after, shows, grows⟩ := grown s sits.shows
  refine ⟨s, after, .rest, grows, sits_observed i c s m s after sits grows shows (sits.hand.trans hand.symm) ?_ ?_⟩
  · rw [pops, List.nil_append]
  · rw [processes, spends, List.append_nil, List.append_nil]

theorem move_take (j : Nat) (σ σ' : Stage) (sits : s.Sits i c) (step : σ.step i (.take j) c = some σ') :
    c.Turned i s (.take j) σ σ' := by
  by_cases here : j = i
  · subst here
    have queued := sits_queued j c s sits
    simp only [Stage.step, if_true, queued] at step
    cases taken : c.stack.next? j with
    | none =>
        have empty : s.loop.queue.toList = [] := by
          have place : c.stack.loop? j = some s.loop := sits.shows.place
          simpa [Stack.next?, place, RunLoop.next?, Fifo.pop?_eq_none] using taken
        have same : σ' = σ := by
          rw [empty] at step
          cases σ <;> simp_all [Stage.begin]
        subst same
        have still : c.move (.take j) = c := by simp only [move, take, taken]
        refine move_aside j c s (.take j) σ' sits ?_ ?_ ?_ ?_ ?_
        · rw [still]
          exact Hub.grows_refl j _
        · rw [still]
        all_goals simp [pops, processes, spends, queued, empty]
    | some found =>
        obtain ⟨t, next⟩ := found
        obtain ⟨queue, waits, popped⟩ := Seat.shows_next j s c.stack t next sits.shows taken
        rw [waits, List.head?_cons] at step
        obtain ⟨mid, after, turn, grows, shown, hand, left, log⟩ := Seat.begun_task j s next queue popped σ σ' t waits step
        have moved : c.move (.take j) = ⟨(next.startTask j t).2.2, (j, (next.startTask j t).2.1) :: c.hand⟩ := by
          simp only [move, take, taken]
        have pops : c.pops j (.take j) = [t] := by simp [pops, queued, waits]
        refine ⟨mid, after, turn, grows, sits_observed j c s (.take j) mid after sits grows ?_ ?_ ?_ ?_⟩
        · rw [moved]
          exact shown
        · rw [moved, underway_cons, if_pos rfl, hand, sits.hand]
          rfl
        · rw [pops, left]
          rfl
        · have place : c.stack.loop? j = some s.loop := sits.shows.place
          have spends : c.spends j (.take j) = s.unhosted t := by
            simp only [spends, pops, Seat.unhosted, hosts, place, Option.bind_some]
            cases t <;> simp [Task.event?]
          rw [log, spends, processes, pops]
  · have same : σ' = σ := by simpa [Stage.step, here] using step.symm
    subst same
    refine move_aside i c s (.take j) σ' sits ?_ ?_ (by simp [pops, here]) (by simp [processes, pops, here])
      (by simp [spends, pops, here])
    · simp only [move, take]
      split
      · exact Hub.grows_refl i _
      · next t next taken =>
          exact Stack.grows_startTask i j _ here t next (Stack.grows_next i j _ here t c.stack next (Hub.grows_refl i _) taken)
    · simp only [move, take]
      split
      · rfl
      · rw [underway_cons, if_neg here]
        rfl

theorem move_finish (place : Nat) (σ σ' : Stage) (sits : s.Sits i c) (step : σ.step i (.finish place) c = some σ') :
    c.Turned i s (.finish place) σ σ' := by
  cases held : c.hand[place]? with
  | none =>
      have same : σ' = σ := by simpa [Stage.step, held] using step.symm
      subst same
      have still : c.move (.finish place) = c := by simp only [move, finish, held]
      refine move_aside i c s _ σ' sits ?_ ?_ rfl rfl (by simp [spends, held])
      · rw [still]
        exact Hub.grows_refl i _
      · rw [still]
  | some work =>
      obtain ⟨j, rest⟩ := work
      have moved : c.move (.finish place) = ⟨c.stack.finishTask j rest, c.hand.eraseIdx place⟩ := by
        simp only [move, finish, held]
      have left := underway_erase i c place j rest held (c.stack.finishTask j rest)
      by_cases here : j = i
      · subst here
        rw [if_pos rfl] at left
        have concludes : σ.conclude = some σ' := by simpa [Stage.step, held] using step
        obtain ⟨mid, after, turn, grows, shown, hand, queue, log, -⟩ :=
          Seat.finish_turn j s c.stack σ σ' rest _ sits.shows (sits.hand.trans left) concludes
        refine ⟨mid, after, turn, grows, sits_observed j c s _ mid after sits grows ?_ ?_ ?_ ?_⟩
        · rw [moved]
          exact shown
        · rw [moved, hand]
        · rw [queue]
          rfl
        · rw [log]
          cases event : rest.event? <;> simp [processes, spends, held, event, Option.filter]
      · rw [if_neg here] at left
        have same : σ' = σ := by simpa [Stage.step, held, here] using step.symm
        subst same
        refine move_aside i c s _ σ' sits ?_ ?_ rfl rfl (by simp [spends, held, here])
        · rw [moved]
          exact Stack.grows_finishTask i j _ here rest c.stack (Hub.grows_refl i _)
        · rw [moved, left]

theorem move_drop (j : Nat) (σ σ' : Stage) (sits : s.Sits i c) (shut : σ = .draining → s.loop.stopped = true)
    (step : σ.step i (.drop j) c = some σ') :
    c.Turned i s (.drop j) σ σ' := by
  by_cases here : j = i
  · subst here
    have place : c.stack.loop? j = some s.loop := sits.shows.place
    have queued := sits_queued j c s sits
    have begun : σ = .draining ∧ σ' = .draining ∧ ∃ t rest, s.loop.queue.toList = t :: rest ∧ t.isJob = false := by
      simp only [Stage.step, if_true, queued] at step
      cases waits : s.loop.queue.toList with
      | nil => cases σ <;> simp_all [Stage.drop]
      | cons t rest => cases σ <;> cases t <;> simp_all [Stage.drop, Task.isJob]
    obtain ⟨rfl, rfl, t, rest, waits, plain⟩ := begun
    have stopped : c.stack.isShut j = true := by
      rw [Stack.isShut, place, Option.map_some, shut rfl, Option.getD_some]
    have moved : c.move (.drop j) = ⟨c.stack.dropTask j, c.hand⟩ := by simp only [move, stopped, if_true, onStack]
    cases taken : c.stack.next? j with
    | none =>
        have empty : s.loop.queue.toList = [] := by
          simpa [Stack.next?, place, RunLoop.next?, Fifo.pop?_eq_none] using taken
        rw [empty] at waits
        cases waits
    | some found =>
        obtain ⟨t', next⟩ := found
        obtain ⟨queue, waits', -⟩ := Seat.shows_next j s c.stack t' next sits.shows taken
        have same : t' = t := List.head_eq_of_cons_eq (waits'.symm.trans waits)
        subst same
        obtain ⟨mid, after, turn, grows, shown, hand, left, log⟩ :=
          Seat.drop_turn j s c.stack t' next sits.shows taken plain
        have pops : c.pops j (.drop j) = [t'] := by simp [pops, stopped, queued, waits, plain]
        refine ⟨mid, after, turn, grows, sits_observed j c s _ mid after sits grows ?_ ?_ ?_ ?_⟩
        · rw [moved]
          exact shown
        · rw [moved, hand, sits.hand]
          rfl
        · rw [pops, left]
          rfl
        · have spends : c.spends j (.drop j) = t'.event?.toList := by
            simp only [spends, pops]
            cases t' <;> rfl
          rw [log, spends]
          simp [processes]
  · have same : σ' = σ := by simpa [Stage.step, here] using step.symm
    subst same
    refine move_aside i c s _ σ' sits ?_ ?_ (by simp [pops, here]) rfl (by simp [spends, pops, here])
    · simp only [move]
      split
      · exact Stack.grows_dropTask i j _ here c.stack (Hub.grows_refl i _)
      · exact Hub.grows_refl i _
    · simp only [move]
      split <;> rfl

theorem move_quit (j place : Nat) (σ σ' : Stage) (sits : s.Sits i c) (step : σ.step i (.quit j place) c = some σ') :
    c.Turned i s (.quit j place) σ σ' := by
  by_cases here : j = i
  · subst here
    have parts : σ = .ending ∧ σ' = .ending ∧ ∃ a, s.loop.leaving[place]? = some a := by
      simp only [Stage.step, if_true, sits_leaving j c s sits] at step
      cases left : s.loop.leaving[place]? with
      | none => cases σ <;> simp_all [Stage.quit]
      | some a => cases σ <;> simp_all [Stage.quit]
    obtain ⟨rfl, rfl, a, there⟩ := parts
    have shows := Seat.shows_quit j s c.stack place a sits.shows there
    refine ⟨_, _, .dismiss place a there, .refl, sits_observed j c s _ _ _ sits .refl shows sits.hand rfl ?_⟩
    simp [processes, spends]
  · have same : σ' = σ := by simpa [Stage.step, here] using step.symm
    subst same
    exact move_aside i c s _ σ' sits (Stack.grows_quit i j _ here place c.stack (Hub.grows_refl i _)) rfl rfl rfl rfl

theorem move_modify (j : Nat) (m : Move) (f : RunLoop → RunLoop) (σ σ' : Stage) (sits : s.Sits i c)
    (moved : c.move m = c.onStack (·.modifyLoop j f)) (pops : c.pops i m = []) (processes : c.processes i m = [])
    (spends : c.spends i m = []) (queue : (f s.loop).queue = s.loop.queue)
    (here : j = i → Seat.Turn σ σ' s { s with loop := f s.loop }) (there : j ≠ i → σ' = σ) :
    c.Turned i s m σ σ' := by
  by_cases same : j = i
  · subst same
    have shows := Seat.shows_modify j c.stack.hub s sits.shows f
    refine ⟨_, _, here rfl, .refl, sits_observed j c s m _ _ sits .refl ?_ ?_ ?_ ?_⟩
    · rw [moved]
      exact shows
    · rw [moved]
      exact sits.hand
    · rw [pops, queue, List.nil_append]
    · rw [processes, spends, List.append_nil, List.append_nil]
  · have still := there same
    subst still
    refine move_aside i c s m σ' sits ?_ ?_ pops processes spends
    · rw [moved]
      exact Hub.grows_modify i _ c.stack.hub j f (Hub.grows_refl i _) same
    · rw [moved]
      rfl

theorem move_turned (m : Move) (σ σ' : Stage) (sits : s.Sits i c) (shut : σ = .draining → s.loop.stopped = true)
    (step : σ.step i m c = some σ') : c.Turned i s m σ σ' := by
  have still : ∀ m, σ.step i m c = some σ → σ.step i m c = some σ' → σ' = σ :=
    fun m same moved => Option.some.inj (moved.symm.trans same)
  have refl : c.stack.hub.Grows i c.stack.hub := Hub.grows_refl i _
  cases m with
  | act a =>
      have same := still (.act a) rfl step
      subst same
      exact move_aside i c s _ σ' sits (Stack.grows_act i _ a c.stack refl) rfl rfl rfl rfl
  | haul =>
      have same := still .haul rfl step
      subst same
      exact move_aside i c s _ σ' sits (Stack.grows_haul i _ c.stack refl) rfl rfl rfl rfl
  | turn thread =>
      have same := still (.turn thread) rfl step
      subst same
      exact move_aside i c s _ σ' sits (Hub.grows_same i _ _ _ refl rfl rfl rfl) rfl rfl rfl rfl
  | note n =>
      have same := still (.note n) rfl step
      subst same
      exact move_aside i c s _ σ' sits (Hub.grows_same i _ _ _ refl rfl rfl rfl) rfl rfl rfl rfl
  | tell =>
      have same := still .tell rfl step
      subst same
      exact move_aside i c s _ σ' sits (Hub.grows_same i _ _ _ refl rfl rfl rfl) rfl rfl rfl rfl
  | occupy j =>
      have same := still (.occupy j) rfl step
      subst same
      exact move_aside i c s _ σ' sits (Hub.grows_occupy i _ _ j _ refl) rfl rfl rfl rfl
  | dropRelay =>
      have same := still .dropRelay rfl step
      subst same
      exact move_aside i c s _ σ' sits (Hub.grows_dropRelay i _ _ refl) rfl rfl rfl rfl
  | take j => exact move_take i c s j σ σ' sits step
  | finish place => exact move_finish i c s place σ σ' sits step
  | drop j => exact move_drop i c s j σ σ' sits shut step
  | shut j =>
      refine move_modify i c s j _ RunLoop.shut σ σ' sits rfl rfl rfl rfl rfl ?_ ?_
      · rintro rfl
        simp only [Stage.step, if_true] at step
        cases σ <;> cases step
        exact .shut
      · intro apart
        simpa [Stage.step, apart] using step.symm
  | quit j place => exact move_quit i c s j place σ σ' sits step
  | clearRoster j =>
      refine move_modify i c s j _ (fun l => { l with roster := [] }) σ σ' sits rfl rfl rfl rfl rfl ?_ ?_
      · rintro rfl
        simp only [Stage.step, if_true, sits_leaving j c s sits] at step
        have cleared : σ = .ending ∧ σ' = .draining ∧ s.loop.leaving = [] := by
          cases σ <;> cases left : s.loop.leaving <;> simp_all [Stage.clear]
        obtain ⟨rfl, rfl, none⟩ := cleared
        exact .clear none
      · intro apart
        simpa [Stage.step, apart] using step.symm
  | detach j =>
      by_cases closing : c.stack.isShut j = true
      · have moved : c.move (.detach j) = c.onStack (·.detach j) := by simp only [move, closing, if_true]
        refine move_modify i c s j _ (fun l => { l with attached := false }) σ σ' sits moved rfl rfl rfl rfl ?_ ?_
        · rintro rfl
          simp only [Stage.step, if_true, sits_queued j c s sits] at step
          have left : σ = .draining ∧ σ' = .gone ∧ s.loop.queue.toList = [] := by
            cases σ <;> cases waits : s.loop.queue.toList <;> simp_all [Stage.leave]
          obtain ⟨rfl, rfl, empty⟩ := left
          exact .leave empty
        · intro apart
          simpa [Stage.step, apart] using step.symm
      · have moved : c.move (.detach j) = c := by simp [move, closing]
        have apart : j ≠ i := by
          rintro rfl
          have place : c.stack.loop? j = some s.loop := sits.shows.place
          have draining : σ = .draining := by
            cases σ <;> simp_all [Stage.step, Stage.leave]
          rw [Stack.isShut, place, Option.map_some, shut draining] at closing
          exact closing rfl
        have same : σ' = σ := by simpa [Stage.step, apart] using step.symm
        subst same
        refine move_aside i c s _ σ' sits ?_ ?_ rfl rfl rfl
        · rw [moved]
          exact refl
        · rw [moved]

theorem move_turn (m : Move) (σ σ' : Stage) (sits : s.Sits i c) (shut : σ = .draining → s.loop.stopped = true)
    (step : σ.step i m c = some σ') :
    ∃ mid after : Seat, Seat.Turn σ σ' s mid ∧ mid.Grows after ∧ after.Sits i (c.move m) ∧
      after.log = c.observe i m s.log := by
  obtain ⟨mid, after, turn, grows, -, sits', log⟩ := move_turned i c s m σ σ' sits shut step
  exact ⟨mid, after, turn, grows, sits', log⟩

end Scene

end HubRelay
