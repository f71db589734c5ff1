import HubRelay.Proofs.Relay.Moments
import HubRelay.Proofs.Relay.SlotOwners

/-! The callback that a message to the host is sent with: it is called once, unless the message is never
done with or its loop is gone. -/

set_option autoImplicit false

namespace HubRelay

namespace Happening

def handed? : Happening → Option Nat
  | .completed n (.handed _) => some n
  | _ => none

def abandoned? : Happening → Option Nat
  | .completed n (.abandoned _) => some n
  | _ => none

def freed? : Happening → Option Nat
  | .freed n _ _ => some n
  | _ => none

end Happening

-- A callback that waits for its call, with the number of its message and the payload it will get.
def Errand.pledge? : Errand → Option (Nat × FreeCallback Action × Payload)
  | .handBack _ n callback payload => some (n, callback, payload)
  | _ => none

def Sent (history : List Happening) (n : Nat) (callback : FreeCallback Action) (payload : Payload) : Prop :=
  ∃ badge d k, .offered n badge d (.sent k) ∈ history ∧ d.free = some callback ∧ payload = d.payload

theorem Sent.mono {history more : List Happening} {n : Nat} {callback : FreeCallback Action} {payload : Payload}
    (sent : Sent history n callback payload) (within : ∀ x ∈ history, x ∈ more) : Sent more n callback payload := by
  obtain ⟨badge, d, k, member, rest⟩ := sent
  exact ⟨badge, d, k, within _ member, rest⟩

def Settled (history : List Happening) (n : Nat) (fate : Completion) : Prop :=
  ∃ badge d k, .offered n badge d (.sent k) ∈ history ∧ (fate = .released → d.free = none)

theorem Settled.mono {history more : List Happening} {n : Nat} {fate : Completion} (settled : Settled history n fate)
    (within : ∀ x ∈ history, x ∈ more) : Settled more n fate := by
  obtain ⟨badge, d, k, member, rest⟩ := settled
  exact ⟨badge, d, k, within _ member, rest⟩

theorem handed_completed (x : Happening) (silent : x.completed? = none) : x.handed? = none ∧ x.abandoned? = none := by
  cases x <;> first | exact ⟨rfl, rfl⟩ | cases silent

namespace Traffic

def pledges (t : Traffic) : Multiset (Nat × FreeCallback Action × Payload) := t.errands.filterMap (·.2.pledge?)

structure Answered (t : Traffic) : Prop where
  handed : (t.history.filterMap Happening.handed? : Multiset Nat) =
    t.pledges.map (·.1) + (t.history.filterMap Happening.freed? : Multiset Nat)
  queued : ∀ x ∈ t.pledges, Sent t.history x.1 x.2.1 x.2.2
  called : ∀ n callback payload, .freed n callback payload ∈ t.history → Sent t.history n callback payload
  settled : ∀ n fate, .completed n fate ∈ t.history → Settled t.history n fate
  counted : t.pool.isSome → t.abandoned = (t.history.filterMap Happening.abandoned?).length

end Traffic

def Task.pledge? : Task → Option (Nat × FreeCallback Action × Payload)
  | .job (.handBack _ n callback payload) => some (n, callback, payload)
  | _ => none

namespace Scene

end Scene

end HubRelay
