import HubRelay.Proofs.Link.Course

/-! A link that has begun to shut down ends up shut down, whatever its listener calls meanwhile. -/

set_option autoImplicit false

namespace HubRelay

namespace Course

theorem transmit_shut (n : Nat) (m : Outgoing) (fails : Bool) (r : Rig) :
    (r.transmit n m fails).2.link.shutDown = r.link.shutDown := by
  rw [Rig.transmit_link, Uplink.record_shut_down]

theorem call_shut (c : LinkCall) (r : Rig) : (r.call c).2.link.shutDown = r.link.shutDown := by
  cases c with
  | uplink c =>
      cases c with
      | start =>
          simp only [Rig.call]
          split
          · rename_i link started
            obtain rfl := Uplink.start_ok started
            rfl
          · rfl
      | pump | pause | resume | spoil | takeReceived => rfl
  | send m =>
      simp only [Rig.call, Rig.answer, Uplink.send]
      split <;> rfl
  | shutdown | deliver | bind => simp only [Rig.call]; split <;> rfl
  | flush | dropListener | malformed => rfl

theorem draws_shut {r : Rig} {f : Frame} (draws : r.Draws f) : (r.step f).2.link.shutDown = r.link.shutDown := by
  cases draws with
  | rests reply stepped => rw [stepped]
  | takes m fails link next taken goes stepped =>
      rw [stepped]
      exact (transmit_shut ..).trans (Uplink.take_some taken).2.2.2.1

theorem step_shut (r : Rig) (f : Frame) (rest : List Frame)
    (closing : r.link.shutDown = true ∨ .close ∈ f :: rest) :
    (r.step f).2.link.shutDown = true ∨ .close ∈ (r.step f).1 ++ rest := by
  by_cases last : f = .close
  · subst last
    exact .inl rfl
  · have same : (r.step f).2.link.shutDown = r.link.shutDown := by
      cases f with
      | call c => exact call_shut c r
      | answer | flushed | letGo | settle => rfl
      | script calls => cases calls <;> rfl
      | pump left sent => exact draws_shut (r.pump_draws left sent)
      | haul => exact draws_shut r.haul_draws
      | report n k =>
          simp only [Rig.step]
          split <;> rfl
      | close => exact absurd rfl last
      | failAll n messages =>
          cases messages with
          | nil => rfl
          | cons m messages => exact transmit_shut ..
    rcases closing with closed | due
    · exact .inl (same.trans closed)
    · rcases List.mem_cons.mp due with first | later
      · exact absurd first.symm last
      · exact .inr (List.mem_append_right _ later)

theorem run_shut (steps : Nat) (c : Course) (closing : c.rig.link.shutDown = true ∨ .close ∈ c.agenda) :
    (c.run (List.replicate steps .step)).rig.link.shutDown = true ∨
      .close ∈ (c.run (List.replicate steps .step)).agenda := by
  apply run_invariant (fun c => c.rig.link.shutDown = true ∨ .close ∈ c.agenda) (· = .step)
  · rintro t ⟨r, agenda⟩ rfl closing
    cases agenda with
    | nil => exact closing
    | cons f rest => exact step_shut r f rest closing
  · exact fun _ member => List.eq_of_mem_replicate member
  · exact closing

theorem shutdown_shuts (r : Rig) : (r.run [.call .shutdown]).link.shutDown = true := by
  obtain ⟨steps, reached⟩ := r.run_course [.call .shutdown]
  cases steps with
  | zero => cases congrArg Course.agenda reached
  | succ steps =>
      have first : (r.call .shutdown).2.link.shutDown = true ∨ .close ∈ (r.call .shutdown).1 ++ [] := by
        simp only [Rig.call]
        split
        · exact .inl (by assumption)
        · exact .inr (by simp)
      have closing := run_shut steps ⟨(r.call .shutdown).2, (r.call .shutdown).1 ++ []⟩ first
      rw [List.replicate_succ] at reached
      have ended : Course.run (List.replicate steps .step) ⟨(r.call .shutdown).2, (r.call .shutdown).1 ++ []⟩ =
          ⟨r.run [.call .shutdown], []⟩ := reached
      rw [ended] at closing
      simpa using closing

end Course

end HubRelay
