import HubRelay.Proofs.Link.Queue

/-! Where the messages of a link come from: whatever it delivers was offered to it. -/

set_option autoImplicit false

namespace HubRelay

namespace Uplink

def Only (P : Outgoing → Prop) (u : Uplink) : Prop :=
  (∀ m ∈ u.queue.toList, P m) ∧ ∀ x ∈ u.received, ∃ m, P m ∧ m.delivery? = some x

theorem Only.mono {P Q : Outgoing → Prop} {u : Uplink} (only : u.Only P) (within : ∀ m, P m → Q m) : u.Only Q := by
  refine ⟨fun m member => within m (only.1 m member), fun x member => ?_⟩
  obtain ⟨m, held, delivered⟩ := only.2 x member
  exact ⟨m, within m held, delivered⟩

variable (P : Outgoing → Prop)

theorem send_only (m : Outgoing) (u : Uplink) (only : u.Only P) (own : (u.send m).1 = true → P m) : (u.send m).2.Only P := by
  unfold send at own ⊢
  split
  · exact only
  · next room =>
      rw [if_neg room] at own
      refine ⟨fun x member => ?_, only.2⟩
      simp only [Fifo.toList_push, List.mem_append, List.mem_singleton] at member
      rcases member with old | rfl
      · exact only.1 x old
      · exact own rfl

theorem take_only (m : Outgoing) (fails : Bool) (u rest : Uplink) (only : u.Only P)
    (taken : u.take? = some (m, fails, rest)) : P m ∧ rest.Only P := by
  obtain ⟨waits, -⟩ := take_some taken
  have received : rest.received = u.received := by
    obtain ⟨queue, -, -, -, rfl⟩ := take_eq taken
    rfl
  obtain ⟨queued, delivered⟩ := only
  rw [waits] at queued
  refine ⟨queued m List.mem_cons_self, fun x member => queued x (List.mem_cons_of_mem m member), ?_⟩
  rw [received]
  exact delivered

theorem record_only (m : Outgoing) (fails : Bool) (u : Uplink) (only : u.Only P) (own : P m) : (u.record m fails).Only P := by
  refine ⟨by rw [record_queue]; exact only.1, fun x member => ?_⟩
  unfold record at member
  split at member
  · next delivery made =>
      rcases List.mem_append.mp member with old | new
      · exact only.2 x old
      · cases List.mem_singleton.mp new
        exact ⟨m, own, made⟩
  · exact only.2 x member

section Listener

variable {σ : Type} (complete : Handle → σ → σ)

theorem transmit_only (m : Outgoing) (fails : Bool) (u : Uplink) (s : σ) (only : u.Only P) (own : P m) :
    (transmit complete m fails u s).1.Only P :=
  record_only P m fails u only own

theorem pump_only (limit : Nat) (u : Uplink) (s : σ) (only : u.Only P) : (pump complete limit u s).2.1.Only P := by
  induction limit generalizing u s with
  | zero => exact only
  | succ limit ih =>
      rw [pump]
      split
      · exact only
      · next m fails u' taken =>
          obtain ⟨own, rest⟩ := take_only P m fails u u' only taken
          exact ih _ _ (transmit_only P complete m fails u' s rest own)

theorem haul_only (u : Uplink) (s : σ) (only : u.Only P) : (haul complete u s).1.Only P := by
  unfold haul
  split
  · exact pump_only P complete _ u s only
  · exact only

theorem failAll_only (messages : List Outgoing) (u : Uplink) (s : σ) (only : u.Only P) (own : ∀ m ∈ messages, P m) :
    (failAll complete messages u s).1.Only P := by
  induction messages generalizing u s with
  | nil => exact only
  | cons m rest ih =>
      exact ih _ _ (transmit_only P complete m true u s only (own m List.mem_cons_self)) fun x member =>
        own x (List.mem_cons_of_mem m member)

theorem shutdown_only (u : Uplink) (s : σ) (only : u.Only P) : (shutdown complete u s).1.Only P := by
  unfold shutdown
  split
  · exact only
  · have flushed := haul_only P complete u s only
    refine failAll_only P complete _ _ _ ⟨fun m member => ?_, flushed.2⟩ flushed.1
    cases member

end Listener

theorem start_only (u next : Uplink) (only : u.Only P) (started : u.start = .ok next) : next.Only P := by
  obtain rfl := start_ok started
  exact only

end Uplink

end HubRelay
