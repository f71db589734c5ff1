import HubRelay.Proofs.Link.Course

/-! A call on the link returns. What a run makes of an agenda is what its first frame makes of it and then the frames
that are left, and whoever waits below a call gets its turn once the call has run to its end. -/

set_option autoImplicit false

namespace HubRelay

namespace Rig

theorem run_nil (r : Rig) : r.run [] = r := by
  rw [run, runFor]

theorem run_for_more (fuel more : Nat) (agenda : List Frame) (r : Rig) (enough : r.weight agenda < fuel) :
    r.runFor (fuel + more) agenda = r.runFor fuel agenda := by
  induction fuel generalizing agenda r with
  | zero => omega
  | succ fuel ih =>
      rw [Nat.add_right_comm]
      cases agenda with
      | nil => rfl
      | cons f rest =>
          have lighter := r.step_weight f rest
          exact ih ((r.step f).1 ++ rest) (r.step f).2 (by omega)

theorem run_cons (f : Frame) (rest : List Frame) (r : Rig) :
    r.run (f :: rest) = (r.step f).2.run ((r.step f).1 ++ rest) := by
  obtain ⟨more, fuel⟩ := Nat.exists_eq_add_of_le (Nat.succ_le_of_lt (r.step_weight f rest))
  calc r.run (f :: rest)
      = (r.step f).2.runFor (r.weight (f :: rest)) ((r.step f).1 ++ rest) := rfl
    _ = (r.step f).2.run ((r.step f).1 ++ rest) := by
      rw [fuel]
      exact run_for_more _ _ _ _ (Nat.lt_succ_self _)

@[elab_as_elim]
theorem agenda_induction {motive : List Frame → Rig → Prop} (nil : ∀ r, motive [] r)
    (cons : ∀ f rest r, motive ((r.step f).1 ++ rest) (r.step f).2 → motive (f :: rest) r)
    (agenda : List Frame) (r : Rig) : motive agenda r := by
  generalize heavy : r.weight agenda = weight
  induction weight using Nat.strongRecOn generalizing agenda r with
  | _ weight ih =>
      subst heavy
      cases agenda with
      | nil => exact nil r
      | cons f rest => exact cons f rest r (ih _ (r.step_weight f rest) _ _ rfl)

theorem run_append (agenda rest : List Frame) (r : Rig) : r.run (agenda ++ rest) = (r.run agenda).run rest := by
  induction agenda, r using agenda_induction with
  | nil r => rw [run_nil, List.nil_append]
  | cons f later r ih => rw [List.cons_append, run_cons, run_cons, ← ih, List.append_assoc]

end Rig

namespace Course

theorem step_cons (f : Frame) (rest : List Frame) (r : Rig) :
    (⟨r, f :: rest⟩ : Course).turn .step = ⟨(r.step f).2, (r.step f).1 ++ rest⟩ := rfl

def steps (n : Nat) (c : Course) : Course := c.run (List.replicate n .step)

theorem steps_succ (n : Nat) (c : Course) : c.steps (n + 1) = (c.turn .step).steps n := by
  simp only [steps, List.replicate_succ, run, List.foldl_cons]

/-- After so many steps, and no sooner, nothing is left to do but the frames that were waiting. -/
structure Returns (n : Nat) (r : Rig) (rest : List Frame) (c : Course) : Prop where
  returned : c.steps n = ⟨r, rest⟩
  sooner : ∀ k < n, ∃ frames, frames ≠ [] ∧ (c.steps k).agenda = frames ++ rest

theorem returns (agenda rest : List Frame) (r : Rig) :
    ∃ n, (⟨r, agenda ++ rest⟩ : Course).Returns n (r.run agenda) rest := by
  induction agenda, r using Rig.agenda_induction with
  | nil r => exact ⟨0, by rw [Rig.run_nil]; rfl, fun k before => absurd before (Nat.not_lt_zero k)⟩
  | cons f later r ih =>
      obtain ⟨n, returned, sooner⟩ := ih
      have step : (⟨r, f :: later ++ rest⟩ : Course).turn .step = ⟨(r.step f).2, (r.step f).1 ++ later ++ rest⟩ := by
        rw [List.cons_append, step_cons, List.append_assoc]
      refine ⟨n + 1, ?_, ?_⟩
      · rw [steps_succ, step, returned, Rig.run_cons]
      · intro k before
        cases k with
        | zero => exact ⟨f :: later, by simp, rfl⟩
        | succ k =>
            rw [steps_succ, step]
            exact sooner k (by omega)

theorem first_returns {f : Frame} {rest : List Frame} {c : Course} (first : c.agenda = f :: rest) :
    ∃ n r, c.Returns n r rest := by
  obtain ⟨r, agenda⟩ := c
  subst first
  obtain ⟨n, returned⟩ := returns [f] rest r
  exact ⟨n, _, returned⟩

theorem Returns.above {n : Nat} {r : Rig} {rest : List Frame} {c : Course} (returns : c.Returns n r rest) (k : Nat)
    (reached : k ≤ n) : ∃ frames, (c.steps k).agenda = frames ++ rest := by
  rcases Nat.lt_or_eq_of_le reached with before | rfl
  · obtain ⟨frames, -, above⟩ := returns.sooner k before
    exact ⟨frames, above⟩
  · exact ⟨[], by rw [returns.returned, List.nil_append]⟩

theorem returns_of_two {f g : Frame} {rest : List Frame} {r r' : Rig} (first : r.step f = ([g], r))
    (second : r.step g = ([], r')) : (⟨r, f :: rest⟩ : Course).Returns 2 r' rest := by
  have entered : (⟨r, f :: rest⟩ : Course).turn .step = ⟨r, g :: rest⟩ := by
    rw [step_cons, first]
    rfl
  constructor
  · rw [steps_succ, entered, steps_succ, step_cons, second]
    rfl
  · intro k before
    obtain rfl | rfl : k = 0 ∨ k = 1 := by omega
    · exact ⟨[f], by simp, rfl⟩
    · exact ⟨[g], by simp, by rw [steps_succ, entered]; rfl⟩

end Course

end HubRelay
