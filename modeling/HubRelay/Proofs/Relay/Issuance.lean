import HubRelay.Proofs.Relay.Errands
import HubRelay.Proofs.Relay.Headway
import HubRelay.Proofs.Relay.Losses

/-! What waits in the link waits under a handle that was handed out, and none is handed out again while no generation of
a slot came round again. -/

set_option autoImplicit false

namespace HubRelay

namespace SlotPool

variable {α : Type}

-- No slot is handed out under its first generation until that comes round again.
def Lent (k : Handle) (p : SlotPool α) : Prop := 0 < k.generation.toNat ∧ p.Issued k

theorem lent_apart (a : α) (p next : SlotPool α) (k k' : Handle) (sound : p.Sound) (allocated : p.allocate a = some (k, next))
    (lent : p.Lent k') : k' ≠ k := by
  rintro rfl
  obtain ⟨positive, generation, own, below⟩ := lent
  obtain ⟨before, place, bumped, -⟩ := allocate_place a p next k' sound allocated
  rw [generation?, place, Option.map_some, Option.some.injEq] at own
  have counts : k'.generation.toNat = (before.toNat + 1) % 2 ^ 32 := by
    rw [bumped, UInt32.toNat_add]
    rfl
  have bounded := before.toNat_lt
  rw [← own] at below
  dsimp only at below
  omega

end SlotPool

namespace Custody

variable {t t' : Custody} {size : Nat}

structure Bidden (t : Custody) : Prop where
  sent : ∀ p n badge d k, t.pool = some p → .offered n badge d (.sent k) ∈ t.history → p.Lent k
  bid : ∀ p b, t.pool = some p → t.bid = some b → p.Lent b.handle

theorem granted_lent (deal : Deal t t') (sound : t.Sound size) (few : t'.Few) (k : Handle) (parcel : Parcel)
    (granted : Granted t t' k parcel) (p' : SlotPool Parcel) (alive' : t'.pool = some p') : p'.Lent k := by
  obtain ⟨p, next, alive, allocated, -⟩ := granted.taken
  obtain ⟨-, slot, -, counts⟩ := SlotPool.allotted_allocated parcel p next k (sound.housed p alive).1 allocated
    (granted_room deal sound few k parcel granted p alive)
  have live := granted_here sound.housed k parcel granted
  rw [live?, alive', Option.bind_some] at live
  exact ⟨by omega, p'.issued_live k parcel live⟩

theorem deal_bidden (deal : Deal t t') (sound : t.Sound size) (few : t'.Few) (bidden : t.Bidden) : t'.Bidden where
  sent p' n badge d k alive' offered' := by
    obtain ⟨p, alive, later⟩ := deal_issued deal sound few p' alive'
    rcases deal_sent deal n badge d k offered' with offered | ⟨-, bids, -⟩
    · exact (bidden.sent p n badge d k alive offered).imp_right (later k)
    · exact (bidden.bid p _ alive bids).imp_right (later k)
  bid p' b alive' bids' := by
    obtain ⟨p, alive, later⟩ := deal_issued deal sound few p' alive'
    obtain ⟨-, -, bids | ⟨parcel, granted⟩⟩ := deal_bidding deal b bids'
    · exact (bidden.bid p b alive bids).imp_right (later b.handle)
    · exact granted_lent deal sound few b.handle parcel granted p' alive'

theorem deals_few (deals : Deals t t') (few : t'.Few) : t.Few := by
  induction deals with
  | refl => exact few
  | tail _ deal held => exact held (deal_few deal few)

theorem deals_bidden (deals : Deals t t') (sound : t.Sound size) (few : t'.Few) (bidden : t.Bidden) : t'.Bidden := by
  induction deals with
  | refl => exact bidden
  | tail before deal held => exact deal_bidden deal (deals_sound before sound) few (held (deal_few deal few))

theorem deals_within (deals : Deals t t') (x : Happening) (member : x ∈ t.history) : x ∈ t'.history := by
  induction deals with
  | refl => exact member
  | tail _ deal held => exact deal_within deal x held

end Custody

namespace Scene

theorem opening_bidden (size : Nat) (c : Scene) (opening : c.Opening size) : (c.custody []).Bidden := by
  rw [opening_custody size c opening]
  exact ⟨fun p n badge d k _ member => absurd member List.not_mem_nil, fun p b _ bids => nomatch bids⟩

def Took (c : Scene) (m : Outgoing) : Prop := ∃ n badge d, .offered n badge d (.sent m.handle) ∈ c.stack.hub.history

theorem meet_took (x : Incident) (c : Scene) (honest : x.Honest) (held : c.stack.link.Only c.Took) :
    (c.meet x).stack.link.Only (c.meet x).Took := by
  obtain ⟨asked, lost, deals⟩ := meet_deals x c [] 0 honest
  have later : ∀ m, c.Took m → (c.meet x).Took m := fun m took => by
    obtain ⟨n, badge, d, offered⟩ := took
    exact ⟨n, badge, d, Custody.deals_within deals _ offered⟩
  have kept : c.stack.link.Only (c.meet x).Took := by
    cases link : c.stack.link with
    | uplink u =>
        rw [link] at held
        exact Uplink.Only.mono held later
    | puppet p => trivial
  cases x with
  | dropLoop i => exact kept
  | move m =>
      refine only_move _ m c kept fun d badge k _ _ told => ?_
      obtain ⟨n, offered⟩ := told
      exact ⟨n, badge, d, offered⟩

theorem undergo_took (link : LinkSettings) (incidents : List Incident) (c : Scene) (opens : c.Opens link)
    (honest : ∀ x ∈ incidents, x.Honest) : (c.undergo incidents).stack.link.Only (c.undergo incidents).Took := by
  refine undergo_invariant (fun c => c.stack.link.Only c.Took) Incident.Honest meet_took incidents c honest ?_
  obtain ⟨-, linked, -⟩ := opens_cases link c opens
  rw [linked]
  exact ⟨fun m member => (nomatch member), fun x member => (nomatch member)⟩

end Scene

end HubRelay
