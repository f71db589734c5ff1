import HubRelay.Proofs.Link.Queue
import HubRelay.Reentry

/-! Calls on the link, followed frame by frame. A course is the link together with what is still to be
done of the call under way; turn by turn it passes through every state between two frames, those inside
completions included. `Rig.run` is a course that is followed to its end. -/

set_option autoImplicit false

namespace HubRelay

structure Course where
  rig : Rig
  agenda : List Frame := []

inductive Turn where
  | call (c : LinkCall)
  | haul
  | step

namespace Course

def start (settings : LinkSettings) (scripts : List (List LinkCall)) (routing : Routing) : Course :=
  ⟨{ link := { settings := settings }, bound := true, scripts := scripts, routing := routing }, []⟩

-- Calls are serialised: a call from the top waits until nothing is left of the one before.
def turn : Turn → Course → Course
  | .call c, ⟨r, []⟩ => ⟨r, [.call c]⟩
  | .haul, ⟨r, []⟩ => ⟨r, [.haul]⟩
  | .step, ⟨r, f :: rest⟩ => ⟨(r.step f).2, (r.step f).1 ++ rest⟩
  | _, c => c

def run (turns : List Turn) (c : Course) : Course := turns.foldl (fun c t => c.turn t) c

theorem run_append (before after : List Turn) (c : Course) :
    c.run (before ++ after) = (c.run before).run after := List.foldl_append

theorem run_invariant (P : Course → Prop) (allowed : Turn → Prop)
    (kept : ∀ t c, allowed t → P c → P (c.turn t)) (turns : List Turn) (c : Course)
    (lawful : ∀ t ∈ turns, allowed t) (initial : P c) : P (c.run turns) := by
  induction turns generalizing c with
  | nil => exact initial
  | cons t rest ih =>
      exact ih (c.turn t) (fun u member => lawful u (by simp [member]))
        (kept t c (lawful t (by simp)) initial)

end Course

namespace Rig

theorem transmit_link (n : Nat) (m : Outgoing) (fails : Bool) (r : Rig) :
    (r.transmit n m fails).2.link = r.link.record m fails := by
  unfold transmit
  split <;> rfl

theorem catch_up_frames {r : Rig} {f : Frame} (member : f ∈ r.catchUp) : f = .haul := by
  unfold catchUp at member
  split at member
  · exact List.mem_singleton.mp member
  · cases member

theorem catch_up_none (r : Rig) (still : r.link.hauling = false ∨ 0 < r.link.inTransit) : r.catchUp = [] := by
  have off : (r.link.hauling && r.link.inTransit == 0) = false := by
    rcases still with idle | busy
    · rw [idle, Bool.false_and]
    · rw [beq_eq_false_iff_ne.mpr (Nat.ne_of_gt busy), Bool.and_false]
  simp [catchUp, off]

theorem call_frames {c : LinkCall} {r : Rig} {f : Frame} (member : f ∈ (r.call c).1) :
    (∃ limit, f = .pump limit 0) ∨ (f = .haul ∧ r.catchUp ≠ []) ∨ f = .flushed ∨ f = .close := by
  have caught (first : f ∈ r.catchUp) : f = .haul ∧ r.catchUp ≠ [] := ⟨catch_up_frames first, List.ne_nil_of_mem first⟩
  cases c with
  | uplink c =>
      cases c with
      | pump limit => exact .inl ⟨limit, List.mem_singleton.mp member⟩
      | start =>
          simp only [call] at member
          split at member <;> cases member
      | pause | resume | spoil | takeReceived => cases member
  | flush =>
      rcases List.mem_append.mp member with first | last
      · exact .inr (.inl (caught first))
      · exact .inr (.inr (.inl (List.mem_singleton.mp last)))
  | shutdown =>
      simp only [call] at member
      split at member
      · cases member
      · rcases List.mem_append.mp member with first | last
        · exact .inr (.inl (caught first))
        · exact .inr (.inr (.inr (List.mem_singleton.mp last)))
  | deliver | bind =>
      simp only [call] at member
      split at member <;> cases member
  | send | dropListener | malformed => cases member

-- A pump and the transport thread do alike: they find nothing to do, or take the next message, transmit it and go on.
inductive Draws (f : Frame) (r : Rig) : Prop where
  | rests (reply : Reply) (stepped : r.step f = ([], { r with reply := reply }))
  | takes (m : Outgoing) (fails : Bool) (link : Uplink) (next : Frame) (taken : r.link.take? = some (m, fails, link))
      (goes : next = .haul ∨ ∃ left sent, next = .pump left sent)
      (stepped : r.step f = ((({ r with link := link } : Rig).transmit r.link.oldest m fails).1 ++ [next],
        (({ r with link := link } : Rig).transmit r.link.oldest m fails).2))

theorem pump_draws (left sent : Nat) (r : Rig) : r.Draws (.pump left sent) := by
  cases left with
  | zero => exact .rests (.count sent) rfl
  | succ left =>
      cases taken : r.link.take? with
      | none =>
          apply Draws.rests (.count sent)
          simp only [step, taken, answer]
      | some t =>
          obtain ⟨m, fails, link⟩ := t
          apply Draws.takes m fails link (.pump left (sent + 1)) taken (.inr ⟨left, sent + 1, rfl⟩)
          simp only [step, taken]

theorem haul_draws (r : Rig) : r.Draws .haul := by
  by_cases running : r.link.running = true
  · cases taken : r.link.take? with
    | none =>
        apply Draws.rests r.reply
        simp only [step, running, taken, if_true]
    | some t =>
        obtain ⟨m, fails, link⟩ := t
        apply Draws.takes m fails link .haul taken (.inl rfl)
        simp only [step, running, taken, if_true]
  · apply Draws.rests r.reply
    simp only [step, running, if_false, Bool.false_eq_true]

theorem weight_append (frames rest : List Frame) (r : Rig) :
    r.weight (frames ++ rest) = total (frames.map Frame.weight) + r.weight rest := by
  simp only [weight, List.map_append, total_append]
  omega

theorem weight_replicate (n serial : Nat) (k : Handle) :
    total ((List.replicate n (Frame.report serial k)).map Frame.weight) = n := by
  induction n with
  | zero => rfl
  | succ n ih => rw [List.replicate_succ, List.map_cons, total_cons, ih, Frame.weight, Nat.add_comm]

theorem catch_up_weight (r : Rig) : total (r.catchUp.map Frame.weight) ≤ 1 := by
  unfold catchUp
  split <;> simp [Frame.weight]

theorem transmit_weight (serial : Nat) (m : Outgoing) (fails : Bool) (r : Rig) (rest : List Frame) :
    (r.transmit serial m fails).2.weight ((r.transmit serial m fails).1 ++ rest) ≤ 4 + r.weight rest := by
  have bound := r.link.reports_bound
  rw [weight_append]
  unfold transmit
  split
  · simp only [List.map_append, total_append, weight_replicate, weight, onLink, Uplink.record_queue]
    simp [Frame.weight]
    omega
  · simp only [weight, onLink, Uplink.record_queue]
    simp [Frame.weight]

theorem call_weight (c : LinkCall) (r : Rig) (rest : List Frame) :
    (r.call c).2.weight ((r.call c).1 ++ rest) < r.weight (.call c :: rest) := by
  have caught := r.catch_up_weight
  rw [weight_append]
  cases c with
  | uplink c =>
      cases c with
      | start =>
          simp only [call]
          split
          · next started =>
              obtain rfl := Uplink.start_ok started
              simp [answer, weight, Frame.weight]
          · simp [answer, weight, Frame.weight]
      | pump | pause | resume | spoil | takeReceived =>
          simp [call, answer, weight, onLink, Frame.weight, Uplink.pause, Uplink.resume, Uplink.failNext,
            Uplink.takeReceived] <;> omega
  | send m =>
      simp only [call, answer, weight, record, Frame.weight, List.map_cons, total_cons, Uplink.send]
      split
      · simp
      · simp [Fifo.push, Fifo.length]
        omega
  | flush => simp [call, weight, Frame.weight] at caught ⊢; omega
  | shutdown =>
      simp only [call]
      split
      · simp [answer, weight, Frame.weight]
      · simp [weight, Frame.weight] at caught ⊢; omega
  | deliver => simp only [call]; split <;> simp [answer, weight, note, Frame.weight]
  | bind => simp only [call]; split <;> simp [answer, weight, Frame.weight]
  | dropListener | malformed => simp [call, answer, weight, Frame.weight]

theorem draws_weight {f : Frame} {r : Rig} (draws : r.Draws f) (rest : List Frame) (weight : f.weight = 1) :
    (r.step f).2.weight ((r.step f).1 ++ rest) < r.weight (f :: rest) := by
  cases draws with
  | rests reply stepped =>
      rw [stepped]
      simp [Rig.weight, weight]
  | takes m fails link next taken goes stepped =>
      have shorter := Uplink.take_length taken
      have lighter := transmit_weight r.link.oldest m fails { r with link := link } (next :: rest)
      have light : next.weight = 1 := by rcases goes with rfl | ⟨left, sent, rfl⟩ <;> rfl
      rw [stepped]
      simp only [List.append_assoc, List.singleton_append]
      apply Nat.lt_of_le_of_lt lighter
      simp [Rig.weight, weight, light, shorter]
      omega

theorem step_weight (f : Frame) (r : Rig) (rest : List Frame) :
    (r.step f).2.weight ((r.step f).1 ++ rest) < r.weight (f :: rest) := by
  cases f with
  | call c => exact r.call_weight c rest
  | answer | letGo | settle => simp [step, weight, note, onLink, Uplink.settle, Frame.weight]
  | flushed => simp [step, answer, weight, Frame.weight]
  | script calls =>
      cases calls with
      | nil => simp [step, weight, Frame.weight]
      | cons c calls => simp [step, weight, Frame.weight]; omega
  | pump left sent => exact draws_weight (r.pump_draws left sent) rest rfl
  | haul => exact draws_weight r.haul_draws rest rfl
  | report serial k =>
      simp only [step, note, record]
      split
      · rename_i none
        simp [weight, none, Frame.weight]
      · rename_i script scripts some
        simp [weight, some, Frame.weight]
        omega
  | close => simp [step, weight, Frame.weight, Uplink.takeAll, Uplink.close, Fifo.empty, Fifo.length]; omega
  | failAll serial messages =>
      cases messages with
      | nil => simp [step, answer, weight, Frame.weight]
      | cons m messages =>
          have lighter := transmit_weight serial m true r (.failAll (serial + 1) messages :: rest)
          simp only [step, List.append_assoc, List.singleton_append]
          refine Nat.lt_of_le_of_lt lighter ?_
          simp [weight, Frame.weight]
          omega

theorem run_for_course (fuel : Nat) (agenda : List Frame) (r : Rig) (enough : r.weight agenda < fuel) :
    ∃ steps, Course.run (List.replicate steps .step) ⟨r, agenda⟩ = ⟨r.runFor fuel agenda, []⟩ := by
  induction fuel generalizing agenda r with
  | zero => omega
  | succ fuel ih =>
      cases agenda with
      | nil => exact ⟨0, rfl⟩
      | cons f rest =>
          have lighter := r.step_weight f rest
          obtain ⟨steps, reached⟩ := ih ((r.step f).1 ++ rest) (r.step f).2 (by omega)
          exact ⟨steps + 1, by
            simpa only [List.replicate_succ, Course.run, List.foldl_cons, Course.turn, runFor] using reached⟩

theorem run_course (agenda : List Frame) (r : Rig) :
    ∃ steps, Course.run (List.replicate steps .step) ⟨r, agenda⟩ = ⟨r.run agenda, []⟩ :=
  run_for_course _ agenda r (Nat.lt_succ_self _)

end Rig

end HubRelay
