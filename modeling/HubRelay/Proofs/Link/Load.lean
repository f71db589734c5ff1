import HubRelay.Proofs.Link.Course

/-! What an agenda still has to settle. Each step moves the link's count of what is in transit by as much as it moves
the load of the agenda. -/

set_option autoImplicit false

namespace HubRelay

def Frame.load : Frame → Nat
  | .settle _ => 1
  | .failAll _ messages => messages.length
  | _ => 0

def load (agenda : List Frame) : Nat := total (agenda.map Frame.load)

@[simp] theorem load_nil : load [] = 0 := rfl

@[simp] theorem load_cons (f : Frame) (rest : List Frame) : load (f :: rest) = f.load + load rest := by
  simp [load]

@[simp] theorem load_append (frames rest : List Frame) : load (frames ++ rest) = load frames + load rest := by
  simp [load]

namespace Rig

theorem load_reports (n serial : Nat) (k : Handle) : load (List.replicate n (.report serial k)) = 0 := by
  induction n with
  | zero => rfl
  | succ n ih =>
      rw [List.replicate_succ, load_cons, ih]
      rfl

@[simp] theorem catch_up_load (r : Rig) : load r.catchUp = 0 := by
  unfold catchUp
  split <;> simp [Frame.load]

theorem transmit_load (n : Nat) (m : Outgoing) (fails : Bool) (r : Rig) : load (r.transmit n m fails).1 = 1 := by
  unfold transmit
  split <;> simp [load_reports, Frame.load]

theorem transmit_in_transit (n : Nat) (m : Outgoing) (fails : Bool) (r : Rig) :
    (r.transmit n m fails).2.link.inTransit = r.link.inTransit := by
  rw [transmit_link]
  unfold Uplink.record
  split <;> rfl

theorem call_load (c : LinkCall) (r : Rig) :
    (r.call c).2.link.inTransit = r.link.inTransit ∧ load (r.call c).1 = 0 := by
  cases c with
  | uplink c =>
      cases c with
      | start =>
          simp only [call]
          split
          · next link started =>
              obtain rfl := Uplink.start_ok started
              exact ⟨rfl, rfl⟩
          · exact ⟨rfl, rfl⟩
      | pump | pause | resume | spoil | takeReceived => exact ⟨rfl, rfl⟩
  | send m =>
      simp only [call, answer, Uplink.send]
      split <;> exact ⟨rfl, rfl⟩
  | flush => exact ⟨rfl, by simp [call, Frame.load]⟩
  | shutdown =>
      simp only [call]
      split
      · exact ⟨rfl, rfl⟩
      · exact ⟨rfl, by simp [Frame.load]⟩
  | deliver | bind => simp only [call]; split <;> exact ⟨rfl, rfl⟩
  | dropListener | malformed => exact ⟨rfl, rfl⟩

theorem step_load (f : Frame) (r : Rig) (loaded : f.load ≤ r.link.inTransit) :
    (r.step f).2.link.inTransit + f.load = r.link.inTransit + load (r.step f).1 := by
  -- A message that is taken is in transit from then on, and its settling comes with its transmission.
  have drawn (draws : r.Draws f) (light : f.load = 0) :
      (r.step f).2.link.inTransit + f.load = r.link.inTransit + load (r.step f).1 := by
    cases draws with
    | rests reply stepped => rw [stepped, light, load_nil]
    | takes m fails link next taken goes stepped =>
        have after : next.load = 0 := by rcases goes with rfl | ⟨left, sent, rfl⟩ <;> rfl
        rw [stepped, transmit_in_transit, load_append, transmit_load, load_cons, load_nil, light, after]
        exact (Uplink.take_some taken).2.2.2.2
  cases f with
  | call c =>
      obtain ⟨same, light⟩ := r.call_load c
      show (r.call c).2.link.inTransit + 0 = r.link.inTransit + load (r.call c).1
      rw [same, light]
  | answer | flushed | letGo => rfl
  | script calls => cases calls <;> rfl
  | pump left sent => exact drawn (r.pump_draws left sent) rfl
  | haul => exact drawn r.haul_draws rfl
  | report =>
      simp only [step]
      split <;> rfl
  | settle =>
      simp only [Frame.load] at loaded
      simp only [step, onLink, Uplink.settle, Frame.load, load_nil]
      omega
  | close => simp [step, Uplink.takeAll, Uplink.close, Frame.load]
  | failAll n messages =>
      cases messages with
      | nil => rfl
      | cons m rest =>
          simp only [step, transmit_in_transit, load_append, transmit_load, load_cons, load_nil, Frame.load,
            List.length_cons]
          omega

end Rig

end HubRelay
