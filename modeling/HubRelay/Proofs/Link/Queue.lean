import HubRelay.Uplink

/-! What the link does with the messages that wait in it, one at a time. -/

set_option autoImplicit false

namespace HubRelay

namespace Uplink

theorem start_ok {u next : Uplink} (started : u.start = .ok next) : next = { u with running := true } := by
  unfold start at started
  split at started
  · cases started
  · split at started
    · cases started
    · cases started
      rfl

theorem take_eq {u rest : Uplink} {m : Outgoing} {fails : Bool} (taken : u.take? = some (m, fails, rest)) :
    ∃ queue, u.queue.pop? = some (m, queue) ∧ fails = decide (0 < u.failBudget) ∧ u.paused = false ∧
      rest = { u with
        queue := queue
        inTransit := u.inTransit + 1
        failBudget := if 0 < u.failBudget then u.failBudget - 1 else u.failBudget } := by
  unfold take? at taken
  split at taken
  · cases taken
  · next going =>
      obtain ⟨⟨first, queue⟩, popped, same⟩ := Option.map_eq_some_iff.mp taken
      cases same
      exact ⟨queue, popped, rfl, eq_false_of_ne_true going, rfl⟩

theorem take_some {u rest : Uplink} {m : Outgoing} {fails : Bool} (taken : u.take? = some (m, fails, rest)) :
    u.queue.toList = m :: rest.queue.toList ∧ rest.settings = u.settings ∧ rest.tally = u.tally ∧
      rest.shutDown = u.shutDown ∧ rest.inTransit = u.inTransit + 1 := by
  obtain ⟨queue, popped, -, -, rfl⟩ := take_eq taken
  exact ⟨Fifo.toList_of_pop? popped, rfl, rfl, rfl, rfl⟩

theorem take_length {u rest : Uplink} {m : Outgoing} {fails : Bool} (taken : u.take? = some (m, fails, rest)) :
    u.queue.length = rest.queue.length + 1 := by
  rw [← Fifo.length_toList, (take_some taken).1, List.length_cons, Fifo.length_toList]

@[simp] theorem record_queue (m : Outgoing) (fails : Bool) (u : Uplink) : (u.record m fails).queue = u.queue := by
  unfold record
  split <;> rfl

@[simp] theorem record_settings (m : Outgoing) (fails : Bool) (u : Uplink) :
    (u.record m fails).settings = u.settings := by
  unfold record
  split <;> rfl

@[simp] theorem record_shut_down (m : Outgoing) (fails : Bool) (u : Uplink) :
    (u.record m fails).shutDown = u.shutDown := by
  unfold record
  split <;> rfl

@[simp] theorem record_accepted (m : Outgoing) (fails : Bool) (u : Uplink) :
    (u.record m fails).tally.accepted = u.tally.accepted := by
  unfold record
  split <;> rfl

theorem record_completed (m : Outgoing) (fails : Bool) (u : Uplink) :
    (u.record m fails).tally.completed = u.tally.completed + 1 := by
  unfold record
  split <;> simp only [LinkTally.completed] <;> omega

theorem reports_bound (u : Uplink) : u.reports ≤ 2 := by
  unfold reports
  split <;> omega

section Listener

variable {σ : Type} (complete : Handle → σ → σ) (P : σ → Prop) (kept : ∀ k s, P s → P (complete k s))

include kept

theorem report_keeps (n : Nat) (k : Handle) (s : σ) (held : P s) : P (reportTimes complete n k s) := by
  induction n generalizing s with
  | zero => exact held
  | succ n ih => exact ih (complete k s) (kept k s held)

theorem transmit_keeps (m : Outgoing) (fails : Bool) (u : Uplink) (s : σ) (held : P s) :
    P (transmit complete m fails u s).2 :=
  report_keeps complete P kept _ m.handle s held

theorem pump_keeps (limit : Nat) (u : Uplink) (s : σ) (held : P s) : P (pump complete limit u s).2.2 := by
  induction limit generalizing u s with
  | zero => exact held
  | succ limit ih =>
      rw [pump]
      split
      · exact held
      · next m fails u' taken => exact ih _ _ (transmit_keeps complete P kept m fails u' s held)

theorem haul_keeps (u : Uplink) (s : σ) (held : P s) : P (haul complete u s).2 := by
  unfold haul
  split
  · exact pump_keeps complete P kept _ u s held
  · exact held

theorem failAll_keeps (messages : List Outgoing) (u : Uplink) (s : σ) (held : P s) :
    P (failAll complete messages u s).2 := by
  induction messages generalizing u s with
  | nil => exact held
  | cons m rest ih => exact ih _ _ (transmit_keeps complete P kept m true u s held)

theorem shutdown_keeps (u : Uplink) (s : σ) (held : P s) : P (shutdown complete u s).2 := by
  unfold shutdown
  split
  · exact held
  · exact failAll_keeps complete P kept _ _ _ (haul_keeps complete P kept u s held)

end Listener

end Uplink

end HubRelay
