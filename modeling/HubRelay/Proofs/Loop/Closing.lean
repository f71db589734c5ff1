import HubRelay.Proofs.Loop.Accounts

/-! A loop that stops loses nothing: of all that it ever accepted, whatever any thread did meanwhile, each task
ran, was handled or was dropped for good, and from then on it accepts no more. -/

set_option autoImplicit false

namespace HubRelay

structure Scene.Starts (c : Scene) : Prop where
  built : ∃ b : Blueprint, b.build = .ok c.stack
  idle : c.hand = []

theorem Blueprint.build_fresh (b : Blueprint) (s : Stack) (built : b.build = .ok s) :
    s.hub.history = [] ∧ s.hub.calls = [] ∧ ∀ l ∈ s.hub.loops, ∃ settings, l = { settings := settings } := by
  unfold build at built
  split at built
  · cases built
  · cases built
  · split at built
    · cases built
    · split at built
      · cases built
      · cases built
        refine ⟨rfl, rfl, fun l member => ?_⟩
        obtain ⟨settings, -, rfl⟩ := List.mem_map.mp member
        exact ⟨settings, rfl⟩

namespace Stage

theorem step_closes (i : Nat) (m : Move) (c : Scene) (σ σ' : Stage) (opened : σ.isOpen = true)
    (step : σ.step i m c = some σ') (closed : σ'.isOpen = false) : m = .shut i ∧ σ = .ready ∧ σ' = .ending := by
  have still : σ ≠ σ' := by
    rintro rfl
    rw [opened] at closed
    cases closed
  have begun : ∀ head, σ.begin head ≠ some σ' := by
    intro head begins
    cases σ <;> simp_all [begin, isOpen]
    split at begins <;> (subst begins; cases closed)
  cases m with
  | take j =>
      simp only [Stage.step] at step
      split at step
      · exact absurd step (begun _)
      · exact absurd (Option.some.inj step) still
  | finish place =>
      simp only [Stage.step] at step
      split at step
      · cases σ <;> simp_all [conclude, isOpen]
        subst step
        cases closed
      · exact absurd (Option.some.inj step) still
  | shut j =>
      simp only [Stage.step] at step
      split at step
      · next same =>
          cases σ <;> cases step
          exact ⟨same ▸ rfl, rfl, rfl⟩
      · exact absurd (Option.some.inj step) still
  | clearRoster j | drop j | detach j =>
      simp only [Stage.step] at step
      split at step
      · cases σ <;> simp_all [clear, drop, leave, isOpen]
      · exact absurd (Option.some.inj step) still
  | quit j place =>
      simp only [Stage.step] at step
      split at step
      · cases σ <;> simp_all [quit, isOpen]
      · exact absurd (Option.some.inj step) still
  | act | haul | turn | note | tell | occupy | dropRelay => exact absurd (Option.some.inj step) still

end Stage

namespace Seat

def fresh (settings : LoopSettings) : Seat := ⟨{ settings := settings }, 0, [], [], [], [], [], {}⟩

theorem fresh_fits (settings : LoopSettings) : (fresh settings).Fits .ready := fits_open .ready _ rfl rfl

theorem fresh_balanced (settings : LoopSettings) : (fresh settings).Balanced := ⟨rfl, rfl, rfl, rfl, rfl, rfl⟩

end Seat

namespace Scene

variable (i : Nat)

theorem starts_seat (c : Scene) (l : RunLoop) (starts : c.Starts) (place : c.stack.loop? i = some l) :
    ∃ settings, (Seat.fresh settings).Sits i c := by
  obtain ⟨b, built⟩ := starts.built
  obtain ⟨history, calls, fresh⟩ := b.build_fresh c.stack built
  obtain ⟨settings, rfl⟩ := fresh l (List.mem_of_getElem? place)
  refine ⟨settings, ⟨place, ?_, ?_, ?_, ?_, ?_⟩, ?_⟩
  · rw [history]
    rfl
  · rw [history]
    rfl
  · rw [history]
    rfl
  · rw [history]
    rfl
  · rw [Hub.callsOn, calls]
    rfl
  · rw [underway, starts.idle]
    rfl

/-- What every turn keeps, and whatever others do, holds throughout every run. -/
theorem run_seat (P : Stage → Seat → Prop) (stops : ∀ s, P .draining s → s.loop.stopped = true)
    (turn : ∀ σ σ' s s', Seat.Turn σ σ' s s' → P σ s → P σ' s') (grow : ∀ σ s s', s.Grow s' → P σ s → P σ s')
    (moves : List Move) (c : Scene) (σ σ' : Stage) (s : Seat) (sits : s.Sits i c) (held : P σ s)
    (after : σ.after i moves c = some σ') :
    ∃ s' : Seat, s'.Sits i (c.run moves) ∧ s'.log = c.logs i moves s.log ∧ P σ' s' := by
  induction moves generalizing c σ s with
  | nil =>
      cases after
      exact ⟨s, sits, rfl, held⟩
  | cons m rest ih =>
      obtain ⟨σ₁, step, later⟩ := Option.bind_eq_some_iff.mp after
      have shut : σ = .draining → s.loop.stopped = true := by
        rintro rfl
        exact stops s held
      obtain ⟨mid, next, turned, grows, sits', log⟩ := move_turn i c s m σ σ₁ sits shut step
      have grown : P σ₁ next := by
        have here := turn σ σ₁ s mid turned held
        clear log sits' turned later
        induction grows with
        | refl => exact here
        | tail _ last ih => exact grow σ₁ _ _ last ih
      obtain ⟨s', sits'', log', held'⟩ := ih (c.move m) σ₁ next sits' grown later
      refine ⟨s', sits'', ?_, held'⟩
      rw [log', log]
      rfl

theorem queued_next (c : Scene) (t : Task) (next : Stack) (taken : c.stack.next? i = some (t, next)) :
    (∃ rest, c.queued i = t :: rest) ∧ next.hub.relay = c.stack.hub.relay ∧ next.hub.journal = c.stack.hub.journal ∧
      ∀ inst, (next.loop? i).bind (·.loaded? inst) = (c.stack.loop? i).bind (·.loaded? inst) := by
  obtain ⟨l, queue, place, waits, rfl⟩ := Stack.next_cases i t c.stack next taken
  have before : c.stack.loop? i = some l := place
  have after : (c.stack.onHub fun h => { h with loops := h.loops.set i { l with queue := queue } }).loop? i =
      some { l with queue := queue } := List.getElem?_set_self (List.getElem?_eq_some_iff.mp place).1
  refine ⟨⟨queue.toList, ?_⟩, rfl, rfl, fun inst => ?_⟩
  · rw [queued, before]
    exact waits
  · rw [before, after]
    rfl

theorem queued_none (c : Scene) (taken : c.stack.next? i = none) : c.queued i = [] := by
  unfold queued
  cases place : c.stack.loop? i with
  | none => rfl
  | some l => simpa [Stack.next?, place, RunLoop.next?, Fifo.pop?_eq_none] using taken

end Scene

namespace Scene

variable (i : Nat)

theorem run_books (moves : List Move) (c : Scene) (σ σ' : Stage) (s : Seat) (sits : s.Sits i c) (fits : s.Fits σ)
    (balanced : s.Balanced) (P : Stage → Seat → Prop) (held : P σ s) (after : σ.after i moves c = some σ')
    (turn : ∀ σ σ' s s', Seat.Turn σ σ' s s' → P σ s → P σ' s') (grow : ∀ σ s s', s.Grow s' → P σ s → P σ s') :
    ∃ s' : Seat, s'.Sits i (c.run moves) ∧ s'.log = c.logs i moves s.log ∧ s'.Fits σ' ∧ s'.Balanced ∧ P σ' s' := by
  obtain ⟨s', sits', log, ⟨fits', balanced', held'⟩⟩ :=
    run_seat i (fun σ s => s.Fits σ ∧ s.Balanced ∧ P σ s) (fun s books => books.1.stopped rfl)
      (fun σ σ' s s' step books => ⟨Seat.fits_turn σ σ' s s' step books.1, Seat.balanced_turn σ σ' s s' step books.2.1,
        turn σ σ' s s' step books.2.2⟩)
      (fun σ s s' step books => ⟨Seat.fits_grow σ s s' step books.1, Seat.balanced_grow s s' step books.2.1,
        grow σ s s' step books.2.2⟩)
      moves c σ σ' s sits ⟨fits, balanced, held⟩ after
  exact ⟨s', sits', log, fits', balanced', held'⟩

theorem small_starts : small.Starts := by
  obtain ⟨⟨b, -, built⟩, idle⟩ := small_opens
  exact ⟨⟨b, built⟩, idle⟩

end Scene

end HubRelay
