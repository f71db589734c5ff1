import HubRelay.Proofs.Relay.Instances
import HubRelay.Proofs.Relay.Sessions
import HubRelay.Proofs.Relay.SlotOwners

/-! Messages from the host: each that was let in is passed to its nanoapp once, as it came, or dropped for a
reason. -/

set_option autoImplicit false

namespace HubRelay

def Event.serial? (e : Event) : Option Nat :=
  match e.hook with
  | some (.reclaim _ n) => some n
  | _ => none

theorem Event.bears_serial (k : Handle) (n : Nat) (e : Event) (bears : e.bears k n) : e.serial? = some n := by
  have hook : e.hook = some (.reclaim k n) := bears
  rw [serial?, hook]

namespace Happening

def admitted? : Happening → Option Nat
  | .arrived n _ .delivered | .arrived n _ .deferred => some n
  | _ => none

def ended? : Happening → Option Nat
  | .passed _ _ e | .missed _ e | .drained _ e => e.serial?
  | .strayed n | .turnedAway n => some n
  | _ => none

end Happening

def Errand.pending? : Errand → Option Nat
  | .retry _ n | .event _ n _ => some n
  | _ => none

def Addressed (history : List Happening) (i : Nat) (k : Handle) (n : Nat) (e : Event) : Prop :=
  ∃ a routing badge, .arrived n a routing ∈ history ∧ .posted n i badge ∈ history ∧ badge.app = a.app ∧
    e = Parcel.event k badge.inst ⟨a.message, none, n⟩

theorem Addressed.mono {history more : List Happening} {i : Nat} {k : Handle} {n : Nat} {e : Event}
    (addressed : Addressed history i k n e) (within : ∀ x ∈ history, x ∈ more) : Addressed more i k n e := by
  obtain ⟨a, routing, badge, arrived, posted, rest⟩ := addressed
  exact ⟨a, routing, badge, within _ arrived, within _ posted, rest⟩

namespace Traffic

def pending (t : Traffic) : Multiset Nat := t.errands.filterMap (·.2.pending?)

structure Routed (t : Traffic) : Prop where
  balance : t.pool.isSome → (t.history.filterMap Happening.admitted? : Multiset Nat) =
    t.pending + (t.history.filterMap Happening.ended? : Multiset Nat)
  queued : ∀ i k n e, (i, .event k n e) ∈ t.errands → Addressed t.history i k n e
  passed : ∀ i badge e, .passed i badge e ∈ t.history → ∀ k n, e.bears k n →
    Addressed t.history i k n e ∧ badge.inst = e.target ∧ .requested i badge ∈ t.history
  posted : ∀ n i badge, .posted n i badge ∈ t.history → .requested i badge ∈ t.history

section Errands

variable {t : Traffic} {i : Nat} {x : Errand} {es : Multiset (Nat × Errand)}

end Errands

end Traffic

def Task.pending? : Task → Option Nat
  | .event e => e.serial?
  | .job (.retry _ n) => some n
  | _ => none

namespace Scene

theorem opens_requested (link : LinkSettings) (c : Scene) (opens : c.Opens link) : c.traffic.Requested := by
  obtain ⟨hand, -, -, -, -, loops⟩ := opens_cases link c opens
  rintro i badge (⟨program, member⟩ | ⟨l, place, knows⟩)
  · rw [hand] at member
    cases member
  · obtain ⟨settings, rfl⟩ := loops l (List.mem_of_getElem? place)
    rcases knows with listed | ⟨a, listed, -⟩ | ⟨program, listed⟩ <;> cases listed

end Scene

end HubRelay
