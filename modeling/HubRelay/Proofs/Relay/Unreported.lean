import HubRelay.Proofs.Relay.Records

/-! The messages that were accepted and whose completion is still to come: exactly those that hold a slot
as messages to the host. -/

set_option autoImplicit false

namespace HubRelay

def unreported : List Happening → List (Nat × Handle)
  | [] => []
  | .offered n _ _ (.sent k) :: rest => (n, k) :: unreported rest
  | .completed n _ :: rest => (unreported rest).filter (·.1 ≠ n)
  | _ :: rest => unreported rest

def Happening.Aside (x : Happening) : Prop :=
  x.sent? = none ∧ x.completed? = none ∧ ∀ rest, unreported (x :: rest) = unreported rest

theorem unreported_sent (history : List Happening) :
    ((unreported history).map (·.1)).Sublist (history.filterMap Happening.serial?) := by
  induction history with
  | nil => exact .slnil
  | cons x rest ih =>
      cases x with
      | offered n badge d answer =>
          rw [List.filterMap_cons_some (show (Happening.offered n badge d answer).serial? = some n from rfl)]
          cases answer with
          | sent k => exact ih.cons_cons n
          | _ => exact ih.cons n
      | arrived n a routing =>
          rw [List.filterMap_cons_some (show (Happening.arrived n a routing).serial? = some n from rfl)]
          exact ih.cons n
      | completed n fate => exact (List.filter_sublist.map _).trans ih
      | _ => exact ih

def sentEntry (x : Handle × Option Parcel) : Option (Nat × Handle) :=
  x.2.bind fun p =>
    match p.tenure with
    | .sending _ => some (p.serial, x.1)
    | _ => none

namespace SlotPool

def sent (p : SlotPool Parcel) : Multiset (Nat × Handle) := p.occupied.filterMap sentEntry

end SlotPool

theorem sentEntry_sending (k : Handle) (parcel : Parcel) (m : Message) (sending : parcel.tenure = .sending m) :
    sentEntry (k, some parcel) = some (parcel.serial, k) := by
  simp only [sentEntry, Option.bind_some, sending]

theorem sentEntry_other (k : Handle) (v : Option Parcel) (other : ∀ m, tenure v ≠ .sending m) : sentEntry (k, v) = none := by
  cases v with
  | none => rfl
  | some parcel =>
      simp only [sentEntry, Option.bind_some]
      split
      · next m sending => exact absurd sending (other m)
      · rfl

namespace Traffic

structure Reported (t : Traffic) : Prop where
  balance : (t.history.filterMap Happening.sent? : Multiset Nat) =
    (t.history.filterMap Happening.completed? : Multiset Nat) + ((unreported t.history).map (·.1) : Multiset Nat)
  listed : ∀ p, t.pool = some p → (unreported t.history : Multiset (Nat × Handle)) = p.sent

theorem sent_reclaimed (t : Traffic) (p : SlotPool Parcel) (k : Handle) (tenure' : Tenure) (owned : t.Owned)
    (alive : t.pool = some p) (holds : (k, tenure') ∈ t.holders) (other : ∀ m, tenure' ≠ .sending m) :
    (p.reclaimed k).sent = p.sent := by
  obtain ⟨v, member, rfl⟩ := owned_slot t p k tenure' owned alive holds
  rw [SlotPool.sent, SlotPool.sent, (SlotPool.reclaimed_cases k p v (owned p alive).1 member).2,
    Multiset.filterMap_cons_none _ _ (sentEntry_other k v other)]

theorem sent_completed (t : Traffic) (p p' : SlotPool Parcel) (m : Outgoing) (w : Multiset Outgoing) (parcel : Parcel)
    (rest : Multiset (Handle × Option Parcel)) (owned : t.Owned) (alive : t.pool = some p) (waits : t.waiting = m ::ₘ w)
    (live : p.live? m.handle = some parcel) (before : p.occupied = (m.handle, some parcel) ::ₘ rest)
    (after : p'.sent = rest.filterMap sentEntry) : p.sent = (parcel.serial, m.handle) ::ₘ p'.sent := by
  have sending := owned_live t p m.handle (.sending m.message) parcel owned alive (by simp [message_holds t m w waits]) live
  rw [SlotPool.sent, before, Multiset.filterMap_cons_some _ _ _ (sentEntry_sending m.handle parcel m.message sending), after]

theorem reported_completed (history : List Happening) (n : Nat) (k : Handle) (fate : Completion)
    (rest : Multiset (Nat × Handle)) (apart : (history.filterMap Happening.serial?).Nodup)
    (listed : (unreported history : Multiset (Nat × Handle)) = (n, k) ::ₘ rest) :
    (unreported (.completed n fate :: history) : Multiset (Nat × Handle)) = rest := by
  have distinct : ((unreported history).map (·.1)).Nodup := apart.sublist (unreported_sent history)
  have whole : ((unreported history : Multiset (Nat × Handle)).map (·.1)).Nodup := distinct
  rw [listed, Multiset.map_cons, Multiset.nodup_cons] at whole
  have filtered : (unreported (.completed n fate :: history) : Multiset (Nat × Handle)) =
      (unreported history : Multiset (Nat × Handle)).filter (·.1 ≠ n) := by
    simp [unreported]
  rw [filtered, listed, Multiset.filter_cons_of_neg _ (by simp), Multiset.filter_eq_self]
  intro x member
  exact fun same => whole.1 (Multiset.mem_map.mpr ⟨x, member, same⟩)

theorem reported_complete (t t' : Traffic) (p p' : SlotPool Parcel) (n : Nat) (k : Handle) (fate : Completion)
    (numbered : t.Numbered) (reported : t.Reported) (alive : t.pool = some p) (alive' : t'.pool = some p')
    (sent : p.sent = (n, k) ::ₘ p'.sent) (history : t'.history = .completed n fate :: t.history) : t'.Reported := by
  have before := (reported.listed p alive).trans sent
  have after := reported_completed t.history n k fate p'.sent numbered.apart before
  constructor
  · have balance := reported.balance
    rw [← Multiset.map_coe, before, Multiset.map_cons, Multiset.add_cons] at balance
    have number : (Happening.completed n fate).completed? = some n := rfl
    rw [history, ← Multiset.map_coe, after, List.filterMap_cons_some number, List.filterMap_cons_none rfl,
      ← Multiset.cons_coe, Multiset.cons_add]
    exact balance
  · intro q other
    cases alive'.symm.trans other
    rw [history]
    exact after

theorem reported_aside (t t' : Traffic) (x : Happening) (reported : t.Reported) (aside : x.Aside)
    (history : t'.history = x :: t.history)
    (pools : ∀ p', t'.pool = some p' → ∃ p, t.pool = some p ∧ p'.sent = p.sent) : t'.Reported := by
  obtain ⟨sent, completed, rest⟩ := aside
  constructor
  · rw [history, List.filterMap_cons_none sent, List.filterMap_cons_none completed, rest]
    exact reported.balance
  · intro p' alive'
    obtain ⟨p, alive, same⟩ := pools p' alive'
    rw [history, rest, same]
    exact reported.listed p alive

theorem sent_arrived (a : Arrival) (n : Nat) (p p' : SlotPool Parcel) (k : Handle) (sound : p.Sound)
    (allocated : p.allocate ⟨a.message, none, n⟩ = some (k, p')) : p.sent = p'.sent := by
  obtain ⟨-, gain⟩ := SlotPool.allocate_cases _ p p' k sound allocated
  rw [SlotPool.sent, SlotPool.sent, gain, Multiset.filterMap_cons_none _ _ rfl]

theorem change_reported (past : Hub) (t t' : Traffic) (change : Change past t t') (owned : t.Owned) (numbered : t.Numbered)
    (reported : t.Reported) : t'.Reported := by
  have reclaimed : ∀ k tenure', (k, tenure') ∈ t.holders → (∀ m, tenure' ≠ .sending m) → ∀ p', t.pool.map (·.reclaimed k) = some p' →
      ∃ p, t.pool = some p ∧ p'.sent = p.sent := by
    intro k tenure' holds other p' alive'
    obtain ⟨p, alive, rfl⟩ := Option.map_eq_some_iff.mp alive'
    exact ⟨p, alive, sent_reclaimed t p k tenure' owned alive holds other⟩
  cases change with
  | narrow | shut | detach | lose | fizzle => exact ⟨reported.balance, reported.listed⟩
  | bounce p next parcel k alive allocated =>
      refine ⟨reported.balance, fun p' alive' => ?_⟩
      cases alive'
      rw [SlotPool.sent, (SlotPool.allocate_reclaimed parcel p next k (owned p alive).1 allocated).2]
      exact reported.listed p alive
  | finish i k x es work ends =>
      refine ⟨reported.balance, fun p' alive' => ?_⟩
      have holding : x.holding = (k, x.holding.2) := by rcases ends with rfl | ⟨n, rfl⟩ <;> rfl
      obtain ⟨p, alive, sent⟩ := reclaimed k x.holding.2 (by simp [errand_holds t i x es work, ← holding])
        (by rcases ends with rfl | ⟨n, rfl⟩ <;> intro m same <;> cases same) p' alive'
      rw [sent]
      exact reported.listed p alive
  | accept badge d woke p next k alive allocated =>
      obtain ⟨-, gain⟩ := SlotPool.allocate_cases _ p next k (owned p alive).1 allocated
      have number : (Happening.offered t.serial badge d (.sent k)).sent? = some t.serial := rfl
      constructor
      · have balance := reported.balance
        rw [List.filterMap_cons_some number, List.filterMap_cons_none rfl, unreported, List.map_cons, ← Multiset.cons_coe,
          ← Multiset.cons_coe, Multiset.add_cons, balance]
      · intro p' alive'
        cases alive'
        rw [SlotPool.sent, gain, Multiset.filterMap_cons_some _ _ _ (sentEntry_sending k _ (d.message badge woke) rfl),
          unreported, ← Multiset.cons_coe, reported.listed p alive]
        rfl
  | release m w p parcel waits alive live silent =>
      obtain ⟨-, vacated⟩ := SlotPool.retired_reclaimed m.handle p parcel (owned p alive).1 live
      exact reported_complete t _ p _ _ m.handle .released numbered reported alive rfl
        (sent_completed t p _ m w parcel _ owned alive waits live vacated rfl) rfl
  | abandon m w p parcel callback i waits alive live heard home closed =>
      obtain ⟨-, vacated⟩ := SlotPool.retired_reclaimed m.handle p parcel (owned p alive).1 live
      exact reported_complete t _ p _ _ m.handle (.abandoned i) numbered reported alive rfl
        (sent_completed t p _ m w parcel _ owned alive waits live vacated rfl) rfl
  | hand m w p parcel callback i waits alive live heard home =>
      obtain ⟨-, rest, before, after⟩ := SlotPool.put_cases m.handle p parcel (owned p alive).1 live
      have sent : (p.put m.handle .retiring).sent = rest.filterMap sentEntry := by
        rw [SlotPool.sent, after, Multiset.filterMap_cons_none _ _ rfl]
      exact reported_complete t _ p _ _ m.handle (.handed i) numbered reported alive rfl
        (sent_completed t p _ m w parcel rest owned alive waits live before sent) rfl
  | remark x idle =>
      refine reported_aside t _ x reported ?_ rfl fun p alive => ⟨p, alive, rfl⟩
      cases x <;> first | exact ⟨rfl, rfl, fun _ => rfl⟩ | exact idle.elim
  | request | refuse | turnDown | repost | free | pass =>
      exact reported_aside t _ _ reported ⟨rfl, rfl, fun _ => rfl⟩ rfl fun p alive => ⟨p, alive, rfl⟩
  | deliver a p next k i badge alive allocated located known =>
      refine ⟨reported.balance, fun p' alive' => ?_⟩
      cases alive'
      exact (reported.listed p alive).trans (sent_arrived a t.serial p next k (owned p alive).1 allocated)
  | putOff a p next k alive allocated =>
      refine ⟨reported.balance, fun p' alive' => ?_⟩
      cases alive'
      exact (reported.listed p alive).trans (sent_arrived a t.serial p next k (owned p alive).1 allocated)
  | stray j n k es p parcel work alive live nowhere =>
      refine reported_aside t _ _ reported ⟨rfl, rfl, fun _ => rfl⟩ rfl fun p' alive' => ?_
      refine reclaimed k (.arriving n) (by simp [errand_holds t j _ es work, Errand.holding]) (fun m => by simp) p' ?_
      rw [alive]
      exact alive'
  | turnAway j n k es p parcel i badge l work alive live located place refuses =>
      refine reported_aside t _ _ reported ⟨rfl, rfl, fun _ => rfl⟩ rfl fun p' alive' => ?_
      refine reclaimed k (.arriving n) (by simp [errand_holds t j _ es work, Errand.holding]) (fun m => by simp) p' ?_
      rw [alive]
      exact alive'
  | miss i n k e x es work bears drops =>
      have apart : x.Aside := by
        rcases drops_cases past i e x drops with rfl | rfl <;> exact ⟨rfl, rfl, fun _ => rfl⟩
      refine reported_aside t _ x reported apart rfl fun p' alive' => ?_
      exact reclaimed k (.arriving n) (by simp [errand_holds t i _ es work, Errand.holding]) (fun m => by simp) p' alive'

end Traffic

end HubRelay
