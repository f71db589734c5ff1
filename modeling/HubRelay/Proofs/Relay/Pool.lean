import HubRelay.Proofs.Relay.Gather
import HubRelay.SlotPool

/-! The occupied slots of a pool, by handle. Each operation of the pool adds, changes or takes away one. -/

set_option autoImplicit false

namespace HubRelay

variable {α : Type}

namespace Slot

def vacancy (i : Nat) (s : Slot α) : Multiset Nat :=
  match s.state with
  | .vacant => {i}
  | .live _ | .retiring => 0

-- A live slot with its value, a retiring one without.
def holding (i : Nat) (s : Slot α) : Multiset (Handle × Option α) :=
  match s.state with
  | .vacant => 0
  | .live a => {(⟨i, s.generation⟩, some a)}
  | .retiring => {(⟨i, s.generation⟩, none)}

end Slot

namespace SlotPool

def occupied (p : SlotPool α) : Multiset (Handle × Option α) := gather Slot.holding p.slots.toList

-- Exactly the vacant slots are free, each listed once.
def Sound (p : SlotPool α) : Prop := (p.free : Multiset Nat) = gather Slot.vacancy p.slots.toList

theorem state_place (k : Handle) (p : SlotPool α) (state : SlotState α) :
    p.state? k = some state ↔ p.slots.toList[k.slot]? = some ⟨k.generation, state⟩ := by
  rw [Array.getElem?_toList]
  unfold state?
  constructor
  · intro reads
    split at reads
    · next slot place =>
        split at reads
        · next same =>
            cases reads
            rw [place, ← same]
        · cases reads
    · cases reads
  · intro place
    simp [place]

theorem sound_ofCapacity (n : Nat) : (ofCapacity n : SlotPool α).Sound := by
  have listed : ∀ (f : Nat → Nat) (m : Nat), gather (fun i => Slot.vacancy (f i))
      (List.replicate m (⟨0, .vacant⟩ : Slot α)) = ((List.range m).map f : Multiset Nat) := by
    intro f m
    induction m generalizing f with
    | zero => rfl
    | succ m ih =>
        rw [List.replicate_succ, gather, ih fun i => f (i + 1), List.range_succ_eq_map, List.map_cons, List.map_map]
        rfl
  have whole := listed id n
  simp only [List.map_id] at whole
  simpa [Sound, ofCapacity] using whole.symm

theorem occupied_ofCapacity (n : Nat) : (ofCapacity n : SlotPool α).occupied = 0 := by
  refine gather_none _ _ fun i s place => ?_
  have member := List.mem_of_getElem? place
  simp only [ofCapacity, Array.toList_replicate, List.mem_replicate] at member
  rw [member.2]
  rfl

def holdingState : Option α → SlotState α
  | some a => .live a
  | none => .retiring

theorem mem_occupied (k : Handle) (v : Option α) (p : SlotPool α) :
    (k, v) ∈ p.occupied ↔ p.state? k = some (holdingState v) := by
  rw [state_place, occupied, mem_gather]
  constructor
  · rintro ⟨i, ⟨generation, state⟩, place, member⟩
    cases state with
    | vacant => simp [Slot.holding] at member
    | live a | retiring =>
        simp only [Slot.holding, Multiset.mem_singleton, Prod.mk.injEq] at member
        obtain ⟨rfl, rfl⟩ := member
        exact place
  · intro place
    refine ⟨k.slot, _, place, ?_⟩
    cases v <;> simp [Slot.holding, holdingState]

theorem mem_occupied_live? (k : Handle) (a : α) (p : SlotPool α) :
    (k, some a) ∈ p.occupied ↔ p.live? k = some a := by
  rw [mem_occupied, live?, holdingState]
  split
  · next b reads => simp [reads]
  · next other => exact ⟨fun reads => absurd reads (other a), fun reads => by cases reads⟩

theorem occupied_nodup (p : SlotPool α) : (p.occupied.map (·.1)).Nodup := by
  rw [occupied, gather_map]
  refine gather_nodup _ _ Handle.slot (fun i s => ?_) fun i s k member => ?_
  · unfold Slot.holding
    cases s.state <;> simp
  · unfold Slot.holding at member
    cases state : s.state <;> simp_all

theorem occupied_unique (p : SlotPool α) (k : Handle) (v w : Option α) (one : (k, v) ∈ p.occupied)
    (other : (k, w) ∈ p.occupied) : v = w := by
  have same := Multiset.inj_on_of_nodup_map p.occupied_nodup _ one _ other rfl
  exact (Prod.mk.inj same).2

theorem occupied_put (p : SlotPool α) (k : Handle) (old new : SlotState α) (reads : p.state? k = some old) :
    (p.put k new).occupied + Slot.holding k.slot ⟨k.generation, old⟩ =
      p.occupied + Slot.holding k.slot ⟨k.generation, new⟩ := by
  have place := (state_place k p old).mp reads
  simpa only [occupied, put, Array.toList_setIfInBounds] using gather_set Slot.holding _ _ _ _ place

theorem vacancy_put (p : SlotPool α) (k : Handle) (old new : SlotState α) (reads : p.state? k = some old) :
    gather Slot.vacancy (p.put k new).slots.toList + Slot.vacancy k.slot ⟨k.generation, old⟩ =
      gather Slot.vacancy p.slots.toList + Slot.vacancy k.slot ⟨k.generation, new⟩ := by
  have place := (state_place k p old).mp reads
  simpa only [put, Array.toList_setIfInBounds] using gather_set Slot.vacancy _ _ _ _ place

theorem state_put (p : SlotPool α) (k : Handle) (old new : SlotState α) (reads : p.state? k = some old) :
    (p.put k new).state? k = some new := by
  have place := (state_place k p old).mp reads
  obtain ⟨bound, -⟩ := List.getElem?_eq_some_iff.mp place
  rw [state_place]
  simp only [put, Array.toList_setIfInBounds]
  exact List.getElem?_set_self bound

theorem allocate_place (a : α) (p next : SlotPool α) (k : Handle) (sound : p.Sound)
    (allocated : p.allocate a = some (k, next)) :
    ∃ generation, p.slots[k.slot]? = some ⟨generation, .vacant⟩ ∧ k.generation = generation + 1 ∧
      next.slots = p.slots.setIfInBounds k.slot ⟨k.generation, .live a⟩ ∧ p.free = k.slot :: next.free := by
  obtain ⟨slots, free⟩ := p
  cases free with
  | nil => cases allocated
  | cons i free =>
      have listed : i ∈ gather Slot.vacancy slots.toList := by
        rw [← show _ = gather Slot.vacancy slots.toList from sound]
        simp
      obtain ⟨j, ⟨generation, state⟩, place, vacant⟩ := (mem_gather _ _ _).mp listed
      rw [Array.getElem?_toList] at place
      cases state with
      | live b => simp [Slot.vacancy] at vacant
      | retiring => simp [Slot.vacancy] at vacant
      | vacant =>
          obtain rfl : i = j := by simpa [Slot.vacancy] using vacant
          simp only [allocate, place, Option.map_some, Option.getD_some, Option.some.injEq, Prod.mk.injEq] at allocated
          obtain ⟨rfl, rfl⟩ := allocated
          exact ⟨generation, place, rfl, rfl, rfl⟩

theorem allocate_cases (a : α) (p next : SlotPool α) (k : Handle) (sound : p.Sound)
    (allocated : p.allocate a = some (k, next)) :
    next.Sound ∧ next.occupied = (k, some a) ::ₘ p.occupied := by
  obtain ⟨generation, place, -, slots, listed⟩ := allocate_place a p next k sound allocated
  rw [← Array.getElem?_toList] at place
  have filled := congrArg Array.toList slots
  rw [Array.toList_setIfInBounds] at filled
  constructor
  · have change := gather_set Slot.vacancy _ _ _ ⟨k.generation, .live a⟩ place
    rw [← filled, ← show _ = gather Slot.vacancy p.slots.toList from sound, listed] at change
    simp only [Slot.vacancy, add_zero, ← Multiset.cons_coe, ← Multiset.singleton_add] at change
    rw [add_comm] at change
    exact (add_left_cancel change).symm
  · rw [occupied, filled]
    exact gather_set_more Slot.holding _ _ _ _ {(k, some a)} place (add_zero _).symm

theorem retire_cases (k : Handle) (p next : SlotPool α) (a : α) (retired : p.retire k = some (a, next)) :
    p.state? k = some (.live a) ∧ next = p.put k .retiring := by
  unfold retire at retired
  split at retired
  · next b reads =>
      cases retired
      exact ⟨reads, rfl⟩
  · cases retired

theorem retire_occupied (k : Handle) (p next : SlotPool α) (a : α) (rest : Multiset (Handle × Option α))
    (retired : p.retire k = some (a, next)) (before : p.occupied = (k, some a) ::ₘ rest) :
    next.occupied = (k, none) ::ₘ rest := by
  obtain ⟨reads, rfl⟩ := retire_cases k p next a retired
  have change := occupied_put p k _ .retiring reads
  rw [before, ← Multiset.singleton_add, add_right_comm, add_comm, add_assoc] at change
  exact add_left_cancel change

theorem retire_sound (k : Handle) (p next : SlotPool α) (a : α) (sound : p.Sound)
    (retired : p.retire k = some (a, next)) : next.Sound := by
  obtain ⟨reads, rfl⟩ := retire_cases k p next a retired
  have change := vacancy_put p k _ .retiring reads
  simp only [Slot.vacancy, add_zero] at change
  rw [Sound, change]
  exact sound

theorem retire_live (k : Handle) (p : SlotPool α) (a : α) (live : p.live? k = some a) :
    p.retire k = some (a, p.put k .retiring) := by
  have reads := (mem_occupied k (some a) p).mp ((mem_occupied_live? k a p).mpr live)
  rw [holdingState] at reads
  rw [retire, reads]

theorem retire_stale (k : Handle) (p : SlotPool α) (stale : p.live? k = none) : p.retire k = none := by
  cases retired : p.retire k with
  | none => rfl
  | some taken =>
      obtain ⟨reads, -⟩ := retire_cases k p taken.2 taken.1 retired
      have live := (mem_occupied_live? k _ p).mp ((mem_occupied k (some taken.1) p).mpr reads)
      rw [stale] at live
      cases live

theorem release_member (k : Handle) (p : SlotPool α) (v : Option α) (member : (k, v) ∈ p.occupied) :
    p.release k = .ok (v, p.vacate k) := by
  have reads := (mem_occupied k v p).mp member
  unfold release
  cases v <;> rw [reads] <;> rfl

def reclaimed (k : Handle) (p : SlotPool α) : SlotPool α :=
  match p.release k with
  | .ok (_, next) => next
  | .error _ => p

theorem reclaimed_member (k : Handle) (p : SlotPool α) (v : Option α) (member : (k, v) ∈ p.occupied) :
    p.reclaimed k = p.vacate k := by
  rw [reclaimed, release_member k p v member]

theorem vacate_occupied (k : Handle) (p : SlotPool α) (v : Option α) (member : (k, v) ∈ p.occupied) :
    p.occupied = (k, v) ::ₘ (p.vacate k).occupied := by
  have place := (state_place k p _).mp ((mem_occupied k v p).mp member)
  simp only [occupied, vacate, Array.toList_setIfInBounds]
  refine gather_set_less Slot.holding _ _ _ _ {(k, v)} place ?_
  cases v <;> rfl

theorem vacate_sound (k : Handle) (p : SlotPool α) (v : Option α) (sound : p.Sound) (member : (k, v) ∈ p.occupied) :
    (p.vacate k).Sound := by
  have place := (state_place k p _).mp ((mem_occupied k v p).mp member)
  have gain := gather_set_more Slot.vacancy _ _ _ ⟨k.generation, .vacant⟩ {k.slot} place (by cases v <;> rfl)
  simp only [Sound, vacate, Array.toList_setIfInBounds]
  rw [gain, ← show (p.free : Multiset Nat) = _ from sound]
  rfl

theorem state_vacate (k : Handle) (p : SlotPool α) (v : Option α) (member : (k, v) ∈ p.occupied) :
    (p.vacate k).state? k = some .vacant :=
  state_put p k _ .vacant ((mem_occupied k v p).mp member)

theorem vacant_occupied (p : SlotPool α) :
    (gather Slot.vacancy p.slots.toList).card + p.occupied.card = p.capacity := by
  refine gather_card_pair _ _ _ fun i s => ?_
  unfold Slot.vacancy Slot.holding
  cases s.state <;> rfl

theorem outstanding_occupied (p : SlotPool α) (sound : p.Sound) : p.outstanding = p.occupied.card := by
  have total := p.vacant_occupied
  rw [← show (p.free : Multiset Nat) = _ from sound, Multiset.coe_card] at total
  unfold outstanding available
  omega

end SlotPool

end HubRelay
