import HubRelay.Proofs.Pool.Handles
import HubRelay.Proofs.Relay.Dealings

/-! Which messages are live while they are dealt with, and under which handles. -/

set_option autoImplicit false

namespace HubRelay

def Errand.arrival? : Errand → Option Nat
  | .retry _ n | .event _ n _ | .consume _ n => some n
  | .handBack _ _ _ _ | .giveBack _ => none

namespace SlotPool

variable {α : Type}

theorem state_put_cases (p : SlotPool α) (k k' : Handle) (old new : SlotState α) (reads : p.state? k = some old) :
    (p.put k new).state? k' = if k' = k then some new else p.state? k' := by
  by_cases own : k' = k
  · rw [if_pos own, own]
    exact state_put p k old new reads
  · rw [if_neg own]
    have place := (state_place k p old).mp reads
    rw [Array.getElem?_toList] at place
    obtain ⟨bound, -⟩ := Array.getElem?_eq_some_iff.mp place
    by_cases same : k'.slot = k.slot
    · have later : k.generation ≠ k'.generation := fun equal => own (by
        cases k
        cases k'
        simp_all)
      simp only [state?, put, same, Array.getElem?_setIfInBounds_self_of_lt bound, place, if_neg later]
    · simp only [state?, put, Array.getElem?_setIfInBounds_ne (Ne.symm same)]

theorem live_state (k : Handle) (a : α) (p : SlotPool α) : p.live? k = some a ↔ p.state? k = some (.live a) := by
  rw [← mem_occupied_live?, mem_occupied]
  rfl

theorem live_of_state (p next : SlotPool α) (k k' : Handle) (same : next.state? k' = p.state? k) :
    next.live? k' = p.live? k := by
  rw [live?, live?, same]

theorem put_live (p : SlotPool α) (k k' : Handle) (a : α) (live : p.live? k = some a) :
    (p.put k .retiring).live? k' = if k' = k then none else p.live? k' := by
  have states := state_put_cases p k k' _ .retiring ((live_state k a p).mp live)
  split
  · next own =>
      rw [if_pos own] at states
      rw [live?, states]
  · next other =>
      rw [if_neg other] at states
      exact live_of_state p _ k' k' states

theorem reclaimed_live (p : SlotPool α) (k k' : Handle) :
    (p.reclaimed k).live? k' = if k' = k then none else p.live? k' := by
  have vacated : ∀ old, p.state? k = some old → (p.vacate k).live? k' = if k' = k then none else p.live? k' := by
    intro old reads
    have states : (p.vacate k).state? k' = _ := state_put_cases p k k' old .vacant reads
    split
    · next own =>
        rw [if_pos own] at states
        rw [live?, states]
    · next other =>
        rw [if_neg other] at states
        exact live_of_state p _ k' k' states
  have stale : p.live? k = none → p.live? k' = if k' = k then none else p.live? k' := by
    intro none
    split
    · next own => rw [own, none]
    · rfl
  unfold reclaimed release
  split
  · next next released =>
      split at released
      · next reads =>
          cases released
          exact vacated _ reads
      · next reads =>
          cases released
          exact vacated _ reads
      · cases released
      · cases released
  · next released =>
      split at released
      · cases released
      · cases released
      · next reads => exact stale (by rw [live?, reads])
      · next reads => exact stale (by rw [live?, reads])

theorem allocated_live (a : α) (p next : SlotPool α) (k k' : Handle) (sound : p.Sound)
    (allocated : p.allocate a = some (k, next)) :
    p.live? k = none ∧ next.live? k' = if k' = k then some a else p.live? k' := by
  obtain ⟨-, gain⟩ := allocate_cases a p next k sound allocated
  have apart := next.occupied_nodup
  rw [gain, Multiset.map_cons, Multiset.nodup_cons] at apart
  have fresh : p.live? k = none := by
    refine Option.eq_none_iff_forall_ne_some.mpr fun b live => apart.1 ?_
    exact Multiset.mem_map.mpr ⟨(k, some b), (mem_occupied_live? k b p).mpr live, rfl⟩
  refine ⟨fresh, ?_⟩
  split
  · next own =>
      rw [own]
      exact (mem_occupied_live? k a next).mp (by simp [gain])
  · next other =>
      refine Option.ext fun b => ?_
      rw [← mem_occupied_live?, ← mem_occupied_live?, gain, Multiset.mem_cons]
      constructor
      · rintro (same | member)
        · exact absurd (congrArg Prod.fst same) other
        · exact member
      · exact .inr

theorem capacity_allocated (a : α) (p next : SlotPool α) (k : Handle) (sound : p.Sound)
    (allocated : p.allocate a = some (k, next)) : next.capacity = p.capacity := by
  obtain ⟨-, -, -, slots, -⟩ := allocate_place a p next k sound allocated
  rw [capacity, slots, Array.size_setIfInBounds]
  rfl

theorem capacity_reclaimed (p : SlotPool α) (k : Handle) : (p.reclaimed k).capacity = p.capacity := by
  have vacated : (p.vacate k).capacity = p.capacity := Array.size_setIfInBounds
  unfold reclaimed release
  split
  · next next released =>
      split at released <;> cases released <;> exact vacated
  · rfl

theorem sound_reclaimed (p : SlotPool α) (k : Handle) (sound : p.Sound) : (p.reclaimed k).Sound := by
  by_cases held : ∃ v, (k, v) ∈ p.occupied
  · obtain ⟨v, member⟩ := held
    exact (reclaimed_cases k p v sound member).1
  · have stale : ∀ v, p.state? k ≠ some (holdingState v) := fun v reads => held ⟨v, (mem_occupied k v p).mpr reads⟩
    unfold reclaimed release
    split
    · next next released =>
        split at released
        · next a reads => exact absurd reads (stale (some a))
        · next reads => exact absurd reads (stale none)
        · cases released
        · cases released
    · exact sound

-- How often slots were handed out, as long as no generation came round again.
def allotted (p : SlotPool α) : Nat := total (p.slots.toList.map (·.generation.toNat))

theorem allotted_same (p next : SlotPool α) (same : ∀ i, next.generation? i = p.generation? i) : next.allotted = p.allotted := by
  have listed : next.slots.toList.map (·.generation) = p.slots.toList.map (·.generation) := by
    refine List.ext_getElem? fun i => ?_
    rw [List.getElem?_map, List.getElem?_map, Array.getElem?_toList, Array.getElem?_toList]
    exact same i
  have counts := congrArg (List.map UInt32.toNat) listed
  rw [List.map_map, List.map_map] at counts
  exact congrArg total counts

theorem generation_reclaimed (p : SlotPool α) (k : Handle) (i : Nat) : (p.reclaimed k).generation? i = p.generation? i := by
  unfold reclaimed release
  split
  · next next released =>
      split at released
      · next reads =>
          cases released
          exact generation_put p k _ .vacant reads i
      · next reads =>
          cases released
          exact generation_put p k _ .vacant reads i
      · cases released
      · cases released
  · rfl

theorem allotted_bounds (p : SlotPool α) (i : Nat) (slot : Slot α) (place : p.slots[i]? = some slot) :
    slot.generation.toNat ≤ p.allotted := by
  rw [← Array.getElem?_toList] at place
  have change := total_set (fun s : Slot α => s.generation.toNat) _ _ _ ⟨0, slot.state⟩ place
  exact le_of_le_of_eq (Nat.le_add_left _ _) change

theorem allotted_allocated (a : α) (p next : SlotPool α) (k : Handle) (sound : p.Sound)
    (allocated : p.allocate a = some (k, next)) (few : p.allotted + 1 < generations) :
    next.allotted = p.allotted + 1 ∧ ∃ slot, p.slots[k.slot]? = some slot ∧ k.generation.toNat = slot.generation.toNat + 1 := by
  obtain ⟨generation, place, bumped, slots, -⟩ := allocate_place a p next k sound allocated
  have below := allotted_bounds p k.slot _ place
  have counts : k.generation.toNat = generation.toNat + 1 := by
    rw [bumped, UInt32.toNat_add]
    exact Nat.mod_eq_of_lt (Nat.lt_of_le_of_lt (Nat.succ_le_succ below) few)
  refine ⟨?_, _, place, counts⟩
  rw [← Array.getElem?_toList] at place
  have change := total_set (fun s : Slot α => s.generation.toNat) _ _ _ ⟨k.generation, .live a⟩ place
  rw [allotted, slots, Array.toList_setIfInBounds]
  simp only [counts] at change
  unfold allotted
  omega

end SlotPool

namespace Custody

def live? (k : Handle) (t : Custody) : Option Parcel := t.pool.bind (·.live? k)

def Housed (size : Nat) (t : Custody) : Prop := ∀ p, t.pool = some p → p.Sound ∧ p.capacity = size

def Holds (k : Handle) (parcel : Parcel) (t : Custody) : Prop :=
  Origin t.history k parcel ∨
    ∃ badge d woke, t.bid = some ⟨badge, d, k⟩ ∧ parcel = ⟨d.message badge woke, d.free, t.serial⟩

structure Granted (t t' : Custody) (k : Handle) (parcel : Parcel) : Prop where
  taken : ∃ p next, t.pool = some p ∧ p.allocate parcel = some (k, next) ∧ t'.pool = some next
  idle : t.bid = none
  serial : parcel.serial = t.serial
  holds : t'.Holds k parcel
  work : parcel.tenure = .arriving parcel.serial →
    ∃ i x, (i, x) ∈ t'.errands ∧ x.holding.1 = k ∧ x.arrival? = some parcel.serial

variable {t t' : Custody} {size : Nat}

theorem granted_live (housed : t.Housed size) (k : Handle) (parcel : Parcel) (granted : Granted t t' k parcel) :
    t.live? k = none ∧ ∀ k', t'.live? k' = if k' = k then some parcel else t.live? k' := by
  obtain ⟨p, next, alive, allocated, alive'⟩ := granted.taken
  have lives := fun k' => SlotPool.allocated_live parcel p next k k' (housed p alive).1 allocated
  simp only [live?, alive, alive', Option.bind_some]
  exact ⟨(lives k).1, fun k' => (lives k').2⟩

theorem granted_here (housed : t.Housed size) (k : Handle) (parcel : Parcel) (granted : Granted t t' k parcel) :
    t'.live? k = some parcel := by
  rw [(granted_live housed k parcel granted).2, if_pos rfl]

theorem deal_housed (deal : Deal t t') (housed : t.Housed size) : t'.Housed size := by
  have reclaimed : ∀ (p : SlotPool Parcel) k, p.Sound ∧ p.capacity = size → (p.reclaimed k).Sound ∧ (p.reclaimed k).capacity = size :=
    fun p k held => ⟨p.sound_reclaimed k held.1, (p.capacity_reclaimed k).trans held.2⟩
  have retired : ∀ p k parcel, t.pool = some p → p.live? k = some parcel →
      (p.put k .retiring).Sound ∧ (p.put k .retiring).capacity = size := by
    intro p k parcel alive live
    obtain ⟨sound, capacity⟩ := housed p alive
    exact ⟨(SlotPool.put_cases k p parcel sound live).1, Array.size_setIfInBounds.trans capacity⟩
  have taken : ∀ p next k parcel, t.pool = some p → p.allocate parcel = some (k, next) → next.Sound ∧ next.capacity = size := by
    intro p next k parcel alive allocated
    obtain ⟨sound, capacity⟩ := housed p alive
    exact ⟨(SlotPool.allocate_cases parcel p next k sound allocated).1,
      (SlotPool.capacity_allocated parcel p next k sound allocated).trans capacity⟩
  intro q alive'
  cases deal with
  | remark | refuse | turnDown | accept | ask | repost | fizzle | free | pass => exact housed q alive'
  | lend badge d woke p next k alive idle allocated =>
      cases alive'
      exact taken p q k _ alive allocated
  | deliver a p next k i badge alive idle allocated =>
      cases alive'
      exact taken p q k _ alive allocated
  | putOff a p next k alive idle allocated =>
      cases alive'
      exact taken p q k _ alive allocated
  | bounce a p next k alive idle allocated =>
      cases alive'
      exact reclaimed next k (taken p next k _ alive allocated)
  | withdraw b payload alive bids =>
      obtain ⟨p, alive, rfl⟩ := Option.map_eq_some_iff.mp alive'
      exact reclaimed p b.handle (housed p alive)
  | giveUp i x es idle work unpledged =>
      obtain ⟨p, alive, rfl⟩ := Option.map_eq_some_iff.mp alive'
      exact reclaimed p x.holding.1 (housed p alive)
  | settle p parcel k fate alive live ended =>
      cases alive'
      exact reclaimed _ k (retired p k parcel alive live)
  | hand p parcel k callback i alive live heard =>
      cases alive'
      exact retired p k parcel alive live
  | bereave => cases alive'

/-- What a step does to the live messages: nothing, or one takes a slot, or one leaves its slot, or the relay goes. -/
inductive Moved (t t' : Custody) : Prop
  | kept (same : ∀ k, t'.live? k = t.live? k)
  | granted (k : Handle) (parcel : Parcel) (granted : Granted t t' k parcel)
  | completed (k : Handle) (parcel : Parcel) (live : t.live? k = some parcel)
      (left : ∀ k', t'.live? k' = if k' = k then none else t.live? k')
      (told : parcel.serial ∈ t'.history.filterMap Happening.completed?)
  | withdrawn (b : Bid) (bids : t.bid = some b) (idle' : t'.bid = none)
      (left : ∀ k', t'.live? k' = if k' = b.handle then none else t.live? k')
  | givenBack (i : Nat) (x : Errand) (idle : t.bid = none) (member : (i, x) ∈ t.errands)
      (left : ∀ k', t'.live? k' = if k' = x.holding.1 then none else t.live? k')
  | lost (gone : t'.pool = none)

theorem deal_moved (deal : Deal t t') (housed : t.Housed size) : Moved t t' := by
  have emptied : ∀ k k', (t.pool.map (·.reclaimed k)).bind (·.live? k') = if k' = k then none else t.live? k' := by
    intro k k'
    rw [live?]
    cases t.pool with
    | none => exact (ite_self none).symm
    | some p => exact p.reclaimed_live k k'
  have retired : ∀ p k parcel, t.pool = some p → p.live? k = some parcel →
      t.live? k = some parcel ∧ ∀ k', (p.put k .retiring).live? k' = if k' = k then none else t.live? k' := by
    intro p k parcel alive live
    simp only [live?, alive, Option.bind_some]
    exact ⟨live, fun k' => p.put_live k k' parcel live⟩
  cases deal with
  | remark | refuse | turnDown | accept | ask | repost | fizzle | free | pass => exact .kept fun _ => rfl
  | lend badge d woke p next k alive idle allocated =>
      exact .granted k _ ⟨⟨p, next, alive, allocated, rfl⟩, idle, rfl, .inr ⟨badge, d, woke, rfl, rfl⟩, fun arriving => nomatch arriving⟩
  | deliver a p next k i badge alive idle allocated =>
      exact .granted k _ ⟨⟨p, next, alive, allocated, rfl⟩, idle, rfl,
        .inl (.inr ⟨a, .delivered, List.mem_cons_self, trivial, rfl, rfl⟩), fun _ => ⟨_, _, Multiset.mem_cons_self _ _, rfl, rfl⟩⟩
  | putOff a p next k alive idle allocated =>
      exact .granted k _ ⟨⟨p, next, alive, allocated, rfl⟩, idle, rfl,
        .inl (.inr ⟨a, .deferred, List.mem_cons_self, trivial, rfl, rfl⟩), fun _ => ⟨_, _, Multiset.mem_cons_self _ _, rfl, rfl⟩⟩
  | bounce a p next k alive idle allocated =>
      refine .kept fun k' => ?_
      obtain ⟨vacant, lives⟩ := SlotPool.allocated_live _ p next k k' (housed p alive).1 allocated
      change (next.reclaimed k).live? k' = t.live? k'
      rw [SlotPool.reclaimed_live, lives, live?, alive, Option.bind_some]
      split
      · next own => rw [own, vacant]
      · rfl
  | withdraw b payload alive bids => exact .withdrawn b bids rfl (emptied b.handle)
  | giveUp i x es idle work unpledged => exact .givenBack i x idle (by simp [work]) (emptied x.holding.1)
  | settle p parcel k fate alive live ended =>
      obtain ⟨lives, others⟩ := retired p k parcel alive live
      refine .completed k parcel lives (fun k' => ?_) List.mem_cons_self
      change ((p.put k .retiring).reclaimed k).live? k' = _
      rw [SlotPool.reclaimed_live, others]
      split <;> rfl
  | hand p parcel k callback i alive live heard =>
      obtain ⟨lives, others⟩ := retired p k parcel alive live
      exact .completed k parcel lives others List.mem_cons_self
  | bereave => exact .lost rfl

theorem deal_resident (deal : Deal t t') (housed : t.Housed size) (k : Handle) (parcel : Parcel)
    (live : t'.live? k = some parcel) : t.live? k = some parcel ∨ Granted t t' k parcel := by
  have stayed : ∀ k₀, (∀ k', t'.live? k' = if k' = k₀ then none else t.live? k') → t.live? k = some parcel := by
    intro k₀ left
    rw [left] at live
    split at live
    · cases live
    · exact live
  cases deal_moved deal housed with
  | kept same => exact .inl ((same k).symm.trans live)
  | granted k₀ fresh granted =>
      have lives := (granted_live housed k₀ fresh granted).2 k
      rw [live] at lives
      split at lives
      · next own =>
          cases lives
          rw [own]
          exact .inr granted
      · exact .inl lives.symm
  | completed k₀ other live₀ left => exact .inl (stayed k₀ left)
  | withdrawn b bids idle' left => exact .inl (stayed b.handle left)
  | givenBack i x idle member left => exact .inl (stayed x.holding.1 left)
  | lost gone =>
      rw [live?, gone] at live
      cases live

theorem deal_lost (deal : Deal t t') (housed : t.Housed size) (k : Handle) (parcel : Parcel) (live : t.live? k = some parcel) :
    t'.live? k = some parcel ∨ t'.pool = none ∨ parcel.serial ∈ t'.history.filterMap Happening.completed? ∨
      (∃ b, t.bid = some b ∧ b.handle = k ∧ t'.bid = none) ∨ t.bid = none ∧ ∃ i x, (i, x) ∈ t.errands ∧ x.holding.1 = k := by
  have others : ∀ k₀, (∀ k', t'.live? k' = if k' = k₀ then none else t.live? k') → k = k₀ ∨ t'.live? k = some parcel := by
    intro k₀ left
    by_cases own : k = k₀
    · exact .inl own
    · rw [left, if_neg own]
      exact .inr live
  cases deal_moved deal housed with
  | kept same => exact .inl ((same k).trans live)
  | granted k₀ fresh granted =>
      obtain ⟨vacant, lives⟩ := granted_live housed k₀ fresh granted
      have other : k ≠ k₀ := by
        rintro rfl
        rw [vacant] at live
        cases live
      rw [lives, if_neg other]
      exact .inl live
  | completed k₀ done live₀ left told =>
      rcases others k₀ left with rfl | stays
      · cases live.symm.trans live₀
        exact .inr (.inr (.inl told))
      · exact .inl stays
  | withdrawn b bids idle' left =>
      rcases others b.handle left with own | stays
      · exact .inr (.inr (.inr (.inl ⟨b, bids, own.symm, idle'⟩)))
      · exact .inl stays
  | givenBack i x idle member left =>
      rcases others x.holding.1 left with own | stays
      · exact .inr (.inr (.inr (.inr ⟨idle, i, x, member, own.symm⟩)))
      · exact .inl stays
  | lost gone => exact .inr (.inl gone)

end Custody

end HubRelay
