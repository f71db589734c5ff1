import HubRelay.Proofs.Relay.Moves

/-! Who answers for each slot that is taken: a message that waits in the link answers for its own, and an
errand for the one it is about. No slot is without, and none has two. -/

set_option autoImplicit false

namespace HubRelay

inductive Tenure where
  | sending (m : Message)
  | arriving (serial : Nat)
  | retiring

def Parcel.tenure (p : Parcel) : Tenure :=
  match p.message.header with
  | .toHost _ => .sending p.message
  | .fromHost _ => .arriving p.serial

def tenure : Option Parcel → Tenure
  | some p => p.tenure
  | none => .retiring

def Errand.holding : Errand → Handle × Tenure
  | .handBack k _ _ _ | .giveBack k => (k, .retiring)
  | .retry k n | .event k n _ | .consume k n => (k, .arriving n)

def Outgoing.holding (m : Outgoing) : Handle × Tenure := (m.handle, .sending m.message)

def SlotPool.holdings (p : SlotPool Parcel) : Multiset (Handle × Tenure) := p.occupied.map fun x => (x.1, tenure x.2)

namespace SlotPool

variable {α : Type}

theorem allocate_reclaimed (a : α) (p next : SlotPool α) (k : Handle) (sound : p.Sound)
    (allocated : p.allocate a = some (k, next)) :
    (next.reclaimed k).Sound ∧ (next.reclaimed k).occupied = p.occupied := by
  obtain ⟨sound', occupied'⟩ := allocate_cases a p next k sound allocated
  have member : (k, some a) ∈ next.occupied := by simp [occupied']
  have vacated := vacate_occupied k next (some a) member
  rw [reclaimed_member k next _ member]
  rw [occupied', Multiset.cons_inj_right] at vacated
  exact ⟨vacate_sound k next _ sound' member, vacated.symm⟩

theorem reclaimed_cases (k : Handle) (p : SlotPool α) (v : Option α) (sound : p.Sound) (member : (k, v) ∈ p.occupied) :
    (p.reclaimed k).Sound ∧ p.occupied = (k, v) ::ₘ (p.reclaimed k).occupied := by
  rw [reclaimed_member k p v member]
  exact ⟨vacate_sound k p v sound member, vacate_occupied k p v member⟩

theorem put_cases (k : Handle) (p : SlotPool α) (a : α) (sound : p.Sound) (live : p.live? k = some a) :
    (p.put k .retiring).Sound ∧
      ∃ rest, p.occupied = (k, some a) ::ₘ rest ∧ (p.put k .retiring).occupied = (k, none) ::ₘ rest := by
  have retired := retire_live k p a live
  obtain ⟨rest, before⟩ := Multiset.exists_cons_of_mem ((mem_occupied_live? k a p).mpr live)
  exact ⟨retire_sound k p _ a sound retired, rest, before, retire_occupied k p _ a rest retired before⟩

theorem retired_reclaimed (k : Handle) (p : SlotPool α) (a : α) (sound : p.Sound) (live : p.live? k = some a) :
    ((p.put k .retiring).reclaimed k).Sound ∧ p.occupied = (k, some a) ::ₘ ((p.put k .retiring).reclaimed k).occupied := by
  obtain ⟨sound', rest, before, after⟩ := put_cases k p a sound live
  obtain ⟨sound'', vacated⟩ := reclaimed_cases k _ none sound' (by simp [after])
  rw [after, Multiset.cons_inj_right] at vacated
  exact ⟨sound'', by rw [before, vacated]⟩

end SlotPool

namespace Traffic

def holders (t : Traffic) : Multiset (Handle × Tenure) := t.waiting.map Outgoing.holding + t.errands.map (·.2.holding)

def Owned (t : Traffic) : Prop := ∀ p, t.pool = some p → p.Sound ∧ p.holdings = t.holders

theorem owned_slot (t : Traffic) (p : SlotPool Parcel) (k : Handle) (tenure' : Tenure) (owned : t.Owned) (alive : t.pool = some p)
    (holds : (k, tenure') ∈ t.holders) : ∃ v, (k, v) ∈ p.occupied ∧ tenure v = tenure' := by
  rw [← (owned p alive).2, SlotPool.holdings, Multiset.mem_map] at holds
  obtain ⟨⟨k', v⟩, member, equal⟩ := holds
  cases equal
  exact ⟨v, member, rfl⟩

theorem owned_live (t : Traffic) (p : SlotPool Parcel) (k : Handle) (tenure' : Tenure) (parcel : Parcel) (owned : t.Owned)
    (alive : t.pool = some p) (holds : (k, tenure') ∈ t.holders) (live : p.live? k = some parcel) :
    parcel.tenure = tenure' := by
  obtain ⟨v, member, rfl⟩ := owned_slot t p k tenure' owned alive holds
  have value := p.occupied_unique k _ _ member ((SlotPool.mem_occupied_live? k parcel p).mpr live)
  rw [value]
  rfl

theorem message_holds (t : Traffic) (m : Outgoing) (w : Multiset Outgoing) (waits : t.waiting = m ::ₘ w) :
    t.holders = (m.handle, .sending m.message) ::ₘ (w.map Outgoing.holding + t.errands.map (·.2.holding)) := by
  rw [holders, waits, Multiset.map_cons, Multiset.cons_add]
  rfl

theorem errand_holds (t : Traffic) (i : Nat) (x : Errand) (es : Multiset (Nat × Errand)) (work : t.errands = (i, x) ::ₘ es) :
    t.holders = x.holding ::ₘ (t.waiting.map Outgoing.holding + es.map (·.2.holding)) := by
  rw [holders, work, Multiset.map_cons, Multiset.add_cons]

theorem owned_message (t : Traffic) (p : SlotPool Parcel) (m : Outgoing) (w : Multiset Outgoing) (owned : t.Owned)
    (alive : t.pool = some p) (waits : t.waiting = m ::ₘ w) : ∃ parcel, p.live? m.handle = some parcel := by
  obtain ⟨v, member, equal⟩ := owned_slot t p m.handle (.sending m.message) owned alive (by simp [message_holds t m w waits])
  cases v with
  | none => cases equal
  | some parcel => exact ⟨parcel, (SlotPool.mem_occupied_live? _ _ p).mp member⟩

theorem owned_retry (t : Traffic) (p : SlotPool Parcel) (j n : Nat) (k : Handle) (es : Multiset (Nat × Errand)) (owned : t.Owned)
    (alive : t.pool = some p) (work : t.errands = (j, .retry k n) ::ₘ es) : ∃ parcel, p.live? k = some parcel := by
  obtain ⟨v, member, equal⟩ := owned_slot t p k (.arriving n) owned alive (by simp [errand_holds t j _ es work, Errand.holding])
  cases v with
  | none => cases equal
  | some parcel => exact ⟨parcel, (SlotPool.mem_occupied_live? _ _ p).mp member⟩

theorem retry_serial (t : Traffic) (p : SlotPool Parcel) (j n : Nat) (k : Handle) (es : Multiset (Nat × Errand)) (parcel : Parcel)
    (owned : t.Owned) (alive : t.pool = some p) (work : t.errands = (j, .retry k n) ::ₘ es)
    (live : p.live? k = some parcel) : parcel.tenure = .arriving n ∧ parcel.serial = n := by
  have tenure := owned_live t p k (.arriving n) parcel owned alive (by simp [errand_holds t j _ es work, Errand.holding]) live
  refine ⟨tenure, ?_⟩
  unfold Parcel.tenure at tenure
  split at tenure
  · cases tenure
  · cases tenure
    rfl

theorem owned_finish (t : Traffic) (p : SlotPool Parcel) (i : Nat) (k : Handle) (x : Errand) (es : Multiset (Nat × Errand))
    (owned : t.Owned) (alive : t.pool = some p) (work : t.errands = (i, x) ::ₘ es)
    (ends : x = .giveBack k ∨ ∃ n, x = .consume k n) : ∃ v, (k, v) ∈ p.occupied := by
  have holding : x.holding = (k, x.holding.2) := by rcases ends with rfl | ⟨n, rfl⟩ <;> rfl
  obtain ⟨v, member, -⟩ := owned_slot t p k x.holding.2 owned alive (by simp [errand_holds t i x es work, ← holding])
  exact ⟨v, member⟩

theorem owned_vacated (t : Traffic) (p next : SlotPool Parcel) (k : Handle) (v : Option Parcel) (tenure' : Tenure)
    (rest : Multiset (Handle × Tenure)) (owned : t.Owned) (alive : t.pool = some p) (member : (k, v) ∈ p.occupied)
    (holders : t.holders = (k, tenure') ::ₘ rest) (vacated : p.occupied = (k, v) ::ₘ next.occupied) :
    next.holdings = rest := by
  have holds := (owned p alive).2
  obtain ⟨w, member', rfl⟩ := owned_slot t p k tenure' owned alive (by simp [holders])
  obtain rfl := p.occupied_unique k v w member member'
  rw [SlotPool.holdings, vacated, Multiset.map_cons, holders, Multiset.cons_inj_right] at holds
  exact holds

theorem owned_taken (t : Traffic) (p next : SlotPool Parcel) (parcel : Parcel) (k : Handle) (owned : t.Owned)
    (alive : t.pool = some p) (allocated : p.allocate parcel = some (k, next)) :
    next.Sound ∧ next.holdings = (k, parcel.tenure) ::ₘ t.holders := by
  obtain ⟨sound, holds⟩ := owned p alive
  obtain ⟨sound', gain⟩ := SlotPool.allocate_cases parcel p next k sound allocated
  refine ⟨sound', ?_⟩
  rw [SlotPool.holdings, gain, Multiset.map_cons, ← holds]
  rfl

theorem change_owned (past : Hub) (t t' : Traffic) (change : Change past t t') (owned : t.Owned) : t'.Owned := by
  intro q alive'
  cases change with
  | narrow | remark | shut | detach | request | refuse | turnDown => exact owned q alive'
  | bounce p next parcel k alive allocated =>
      cases alive'
      obtain ⟨sound, holds⟩ := owned p alive
      obtain ⟨sound', same⟩ := SlotPool.allocate_reclaimed parcel p next k sound allocated
      refine ⟨sound', ?_⟩
      rw [SlotPool.holdings, same]
      exact holds
  | accept badge d woke p next k alive allocated =>
      cases alive'
      obtain ⟨sound', gain⟩ := owned_taken t p q _ k owned alive allocated
      refine ⟨sound', gain.trans ?_⟩
      rw [holders, holders, Multiset.map_cons, Multiset.cons_add]
      rfl
  | lose m w waits gone =>
      obtain ⟨parcel, live⟩ := owned_message t q m w owned alive' waits
      rw [gone q alive'] at live
      cases live
  | release m w p parcel waits alive live silent =>
      cases alive'
      obtain ⟨sound, -⟩ := owned p alive
      obtain ⟨sound', vacated⟩ := SlotPool.retired_reclaimed m.handle p parcel sound live
      exact ⟨sound', owned_vacated t p _ m.handle _ _ _ owned alive ((SlotPool.mem_occupied_live? _ _ p).mpr live)
        (message_holds t m w waits) vacated⟩
  | hand m w p parcel callback i waits alive live heard home =>
      cases alive'
      obtain ⟨sound, holds⟩ := owned p alive
      obtain ⟨sound', rest, before, after⟩ := SlotPool.put_cases m.handle p parcel sound live
      have tenure' := owned_live t p m.handle (.sending m.message) parcel owned alive (by simp [message_holds t m w waits]) live
      refine ⟨sound', ?_⟩
      rw [SlotPool.holdings, before, Multiset.map_cons, message_holds t m w waits, tenure, tenure',
        Multiset.cons_inj_right] at holds
      rw [SlotPool.holdings, after, Multiset.map_cons, holds, holders, Multiset.map_cons, Multiset.add_cons]
      rfl
  | abandon m w p parcel callback i waits alive live heard home closed =>
      cases alive'
      obtain ⟨sound, -⟩ := owned p alive
      obtain ⟨sound', vacated⟩ := SlotPool.retired_reclaimed m.handle p parcel sound live
      exact ⟨sound', owned_vacated t p _ m.handle _ _ _ owned alive ((SlotPool.mem_occupied_live? _ _ p).mpr live)
        (message_holds t m w waits) vacated⟩
  | deliver a p next k i badge alive allocated located known =>
      cases alive'
      obtain ⟨sound', gain⟩ := owned_taken t p q _ k owned alive allocated
      refine ⟨sound', gain.trans ?_⟩
      rw [holders, holders, Multiset.map_cons, Multiset.add_cons]
      rfl
  | putOff a p next k alive allocated =>
      cases alive'
      obtain ⟨sound', gain⟩ := owned_taken t p q _ k owned alive allocated
      refine ⟨sound', gain.trans ?_⟩
      rw [holders, holders, Multiset.map_cons, Multiset.add_cons]
      rfl
  | repost j n k es p parcel i badge work alive live located known =>
      obtain ⟨-, serial⟩ := retry_serial t p j n k es parcel owned alive work live
      obtain ⟨sound, holds⟩ := owned q alive'
      refine ⟨sound, holds.trans ?_⟩
      rw [errand_holds t j _ es work, holders, Multiset.map_cons, Multiset.add_cons, serial]
      rfl
  | stray j n k es p parcel work alive live nowhere =>
      cases alive'
      have member := (SlotPool.mem_occupied_live? _ _ p).mpr live
      obtain ⟨sound', vacated⟩ := SlotPool.reclaimed_cases k p _ (owned p alive).1 member
      exact ⟨sound', owned_vacated t p _ k _ _ _ owned alive member (errand_holds t j _ es work) vacated⟩
  | turnAway j n k es p parcel i badge l work alive live located place refuses =>
      cases alive'
      have member := (SlotPool.mem_occupied_live? _ _ p).mpr live
      obtain ⟨sound', vacated⟩ := SlotPool.reclaimed_cases k p _ (owned p alive).1 member
      exact ⟨sound', owned_vacated t p _ k _ _ _ owned alive member (errand_holds t j _ es work) vacated⟩
  | fizzle j n k es work gone =>
      obtain ⟨parcel, live⟩ := owned_retry t q j n k es owned alive' work
      rw [gone q alive'] at live
      cases live
  | free i n k callback payload es work =>
      obtain ⟨sound, holds⟩ := owned q alive'
      refine ⟨sound, holds.trans ?_⟩
      rw [errand_holds t i _ es work, holders, Multiset.map_cons, Multiset.add_cons]
      rfl
  | pass i n k e badge es work bears known aimed =>
      obtain ⟨sound, holds⟩ := owned q alive'
      refine ⟨sound, holds.trans ?_⟩
      rw [errand_holds t i _ es work, holders, Multiset.map_cons, Multiset.add_cons]
      rfl
  | miss i n k e x es work bears drops =>
      obtain ⟨p, alive, rfl⟩ := Option.map_eq_some_iff.mp alive'
      obtain ⟨v, member, -⟩ := owned_slot t p k (.arriving n) owned alive (by simp [errand_holds t i _ es work, Errand.holding])
      obtain ⟨sound', vacated⟩ := SlotPool.reclaimed_cases k p _ (owned p alive).1 member
      exact ⟨sound', owned_vacated t p _ k _ _ _ owned alive member (errand_holds t i _ es work) vacated⟩
  | finish i k x es work ends =>
      obtain ⟨p, alive, rfl⟩ := Option.map_eq_some_iff.mp alive'
      have holding : x.holding = (k, x.holding.2) := by rcases ends with rfl | ⟨n, rfl⟩ <;> rfl
      have holders := errand_holds t i x es work
      rw [holding] at holders
      obtain ⟨v, member⟩ := owned_finish t p i k x es owned alive work ends
      obtain ⟨sound', vacated⟩ := SlotPool.reclaimed_cases k p _ (owned p alive).1 member
      exact ⟨sound', owned_vacated t p _ k _ _ _ owned alive member holders vacated⟩

end Traffic

end HubRelay
