import HubRelay.Proofs.Relay.Pool

/-! A pool that is called in any order, with any handles. Its free list, the states of its slots and its counts agree
after every call, and a call that is refused changes nothing. -/

set_option autoImplicit false

namespace HubRelay

variable {α : Type}

inductive PoolCall (α : Type) where
  | allocate (value : α)
  | read (handle : Handle)
  | retire (handle : Handle)
  | release (handle : Handle)

inductive PoolAnswer (α : Type) where
  | granted (handle : Handle)
  | full (value : α)
  | seen (value : Option α)
  | retired (value : Option α)
  | released (value : Option α)
  | failed (failure : PoolFailure)

def PoolAnswer.Idle : PoolAnswer α → Prop
  | .full _ | .seen _ | .retired none | .failed _ => True
  | .granted _ | .retired (some _) | .released _ => False

def Slot.taken (s : Slot α) : Bool :=
  match s.state with
  | .vacant => false
  | .live _ | .retiring => true

namespace SlotPool

def call (c : PoolCall α) (p : SlotPool α) : PoolAnswer α × SlotPool α :=
  match c with
  | .allocate a =>
      match p.allocate a with
      | none => (.full a, p)
      | some (k, next) => (.granted k, next)
  | .read k => (.seen (p.live? k), p)
  | .retire k =>
      match p.retire k with
      | none => (.retired none, p)
      | some (a, next) => (.retired (some a), next)
  | .release k =>
      match p.release k with
      | .error failure => (.failed failure, p)
      | .ok (v, next) => (.released v, next)

def after (calls : List (PoolCall α)) (p : SlotPool α) : SlotPool α := calls.foldl (fun p c => (p.call c).2) p

theorem after_append (calls more : List (PoolCall α)) (p : SlotPool α) :
    p.after (calls ++ more) = (p.after calls).after more :=
  List.foldl_append

inductive Calls (p : SlotPool α) : PoolCall α → PoolAnswer α → SlotPool α → Prop
  | exhausted (a : α) (none : p.free = []) : Calls p (.allocate a) (.full a) p
  | grant (a : α) (k : Handle) (next : SlotPool α) (allocated : p.allocate a = some (k, next)) :
      Calls p (.allocate a) (.granted k) next
  | read (k : Handle) : Calls p (.read k) (.seen (p.live? k)) p
  | retire (k : Handle) (a : α) (live : p.state? k = some (.live a)) :
      Calls p (.retire k) (.retired (some a)) (p.put k .retiring)
  | spent (k : Handle) (gone : p.live? k = none) : Calls p (.retire k) (.retired none) p
  | release (k : Handle) (v : Option α) (member : (k, v) ∈ p.occupied) : Calls p (.release k) (.released v) (p.vacate k)
  | stale (k : Handle) (gone : ∀ v, (k, v) ∉ p.occupied) : Calls p (.release k) (.failed (.stale k)) p

theorem release_cases (k : Handle) (p : SlotPool α) :
    (∃ v, (k, v) ∈ p.occupied ∧ p.release k = .ok (v, p.vacate k)) ∨
      (∀ v, (k, v) ∉ p.occupied) ∧ p.release k = .error (.stale k) := by
  by_cases held : ∃ v, (k, v) ∈ p.occupied
  · obtain ⟨v, member⟩ := held
    exact .inl ⟨v, member, release_member k p v member⟩
  · have gone : ∀ v, (k, v) ∉ p.occupied := fun v member => held ⟨v, member⟩
    refine .inr ⟨gone, ?_⟩
    unfold release
    split
    · next a reads => exact absurd ((mem_occupied k (some a) p).mpr reads) (gone _)
    · next reads => exact absurd ((mem_occupied k none p).mpr reads) (gone _)
    · rfl
    · rfl

theorem released_member (k : Handle) (p next : SlotPool α) (v : Option α) (released : p.release k = .ok (v, next)) :
    (k, v) ∈ p.occupied := by
  rcases release_cases k p with ⟨w, member, same⟩ | ⟨-, stale⟩
  · cases same.symm.trans released
    exact member
  · cases stale.symm.trans released

theorem call_cases (c : PoolCall α) (p : SlotPool α) : p.Calls c (p.call c).1 (p.call c).2 := by
  cases c with
  | allocate a =>
      simp only [call]
      split
      · next refused =>
          refine .exhausted a ?_
          cases free : p.free with
          | nil => rfl
          | cons i rest =>
              obtain ⟨slots, list⟩ := p
              cases free
              cases refused
      · next k next allocated => exact .grant a k next allocated
  | read k => exact .read k
  | retire k =>
      simp only [call]
      split
      · next refused =>
          refine .spent k ?_
          cases live : p.live? k with
          | none => rfl
          | some a => cases refused.symm.trans (retire_live k p a live)
      · next a next retired =>
          obtain ⟨reads, rfl⟩ := retire_cases k p next a retired
          exact .retire k a reads
  | release k =>
      rcases release_cases k p with ⟨v, member, released⟩ | ⟨gone, stale⟩
      · simp only [call, released]
        exact .release k v member
      · simp only [call, stale]
        exact .stale k gone

-- Gives the slot that `k` names another state before it is known what it held.
def swap (k : Handle) (state : SlotState α) (p : SlotPool α) : Option (SlotState α × SlotPool α) :=
  (p.state? k).map fun held => (held, p.put k state)

def retireInPlace (k : Handle) (p : SlotPool α) : PoolAnswer α × SlotPool α :=
  match p.swap k .retiring with
  | none => (.retired none, p)
  | some (.live a, next) => (.retired (some a), next)
  | some (held, next) => (.retired none, next.put k held)

def releaseInPlace (k : Handle) (p : SlotPool α) : PoolAnswer α × SlotPool α :=
  match p.swap k .vacant with
  | none => (.failed (.stale k), p)
  | some (.vacant, next) => (.failed (.stale k), next)
  | some (.live a, next) => (.released (some a), { next with free := k.slot :: next.free })
  | some (.retiring, next) => (.released none, { next with free := k.slot :: next.free })

theorem put_same (k : Handle) (p : SlotPool α) (state : SlotState α) (reads : p.state? k = some state) : p.put k state = p := by
  have place := (state_place k p state).mp reads
  rw [Array.getElem?_toList] at place
  obtain ⟨bound, same⟩ := Array.getElem?_eq_some_iff.mp place
  simp only [put, ← same, Array.setIfInBounds_def, bound, dif_pos, Array.set_getElem_self]

theorem put_put (k : Handle) (p : SlotPool α) (first second : SlotState α) : (p.put k first).put k second = p.put k second := by
  simp only [put, Array.setIfInBounds_setIfInBounds]

theorem retire_in_place (k : Handle) (p : SlotPool α) : p.retireInPlace k = p.call (.retire k) := by
  cases reads : p.state? k with
  | none => simp only [retireInPlace, swap, call, retire, reads, Option.map_none]
  | some state =>
      cases state with
      | live a => simp only [retireInPlace, swap, call, retire, reads, Option.map_some]
      | vacant | retiring =>
          simp only [retireInPlace, swap, call, retire, reads, Option.map_some, put_put, put_same k p _ reads]

theorem release_in_place (k : Handle) (p : SlotPool α) : p.releaseInPlace k = p.call (.release k) := by
  cases reads : p.state? k with
  | none => simp only [releaseInPlace, swap, call, release, reads, Option.map_none]
  | some state =>
      cases state with
      | live a | retiring => simp only [releaseInPlace, swap, call, release, reads, Option.map_some, put, vacate]
      | vacant =>
          simp only [releaseInPlace, swap, call, release, reads, Option.map_some, put_same k p _ reads]

theorem calls_sound (p next : SlotPool α) (c : PoolCall α) (answer : PoolAnswer α) (calls : p.Calls c answer next)
    (sound : p.Sound) : next.Sound := by
  cases calls with
  | exhausted | read | spent | stale => exact sound
  | grant a k next allocated => exact (allocate_cases a p next k sound allocated).1
  | retire k a live =>
      refine retire_sound k p _ a sound ?_
      rw [retire, live]
  | release k v member => exact vacate_sound k p v sound member

theorem calls_capacity (p next : SlotPool α) (c : PoolCall α) (answer : PoolAnswer α) (calls : p.Calls c answer next)
    (sound : p.Sound) : next.capacity = p.capacity := by
  cases calls with
  | exhausted | read | spent | stale => rfl
  | grant a k next allocated =>
      obtain ⟨generation, -, -, slots, -⟩ := allocate_place a p next k sound allocated
      rw [capacity, slots, Array.size_setIfInBounds, capacity]
  | retire k a live => exact Array.size_setIfInBounds
  | release k v member => exact Array.size_setIfInBounds

theorem calls_idle (p next : SlotPool α) (c : PoolCall α) (answer : PoolAnswer α) (calls : p.Calls c answer next)
    (idle : answer.Idle) : next = p := by
  cases calls with
  | exhausted | read | spent | stale => rfl
  | grant | retire | release => exact idle.elim

theorem after_sound (calls : List (PoolCall α)) (p : SlotPool α) (sound : p.Sound) :
    (p.after calls).Sound ∧ (p.after calls).capacity = p.capacity := by
  induction calls generalizing p with
  | nil => exact ⟨sound, rfl⟩
  | cons c rest ih =>
      have step := call_cases c p
      obtain ⟨sound', capacity⟩ := ih _ (calls_sound p _ c _ step sound)
      exact ⟨sound', capacity.trans (calls_capacity p _ c _ step sound)⟩

structure Consistent (n : Nat) (p : SlotPool α) : Prop where
  capacity : p.capacity = n
  once : p.free.Nodup
  below : ∀ i ∈ p.free, i < n
  vacant : ∀ i slot, p.slots[i]? = some slot → (slot.state = .vacant ↔ i ∈ p.free)
  balance : p.available + p.outstanding = n
  counted : p.outstanding = p.slots.toList.countP Slot.taken

theorem mem_vacancy (i j : Nat) (s : Slot α) : j ∈ Slot.vacancy i s ↔ j = i ∧ s.state = .vacant := by
  unfold Slot.vacancy
  cases s.state <;> simp

theorem mem_free (p : SlotPool α) (sound : p.Sound) (i : Nat) :
    i ∈ p.free ↔ ∃ slot, p.slots[i]? = some slot ∧ slot.state = .vacant := by
  have listed : i ∈ p.free ↔ i ∈ gather Slot.vacancy p.slots.toList := by
    rw [← show _ = gather Slot.vacancy p.slots.toList from sound, Multiset.mem_coe]
  rw [listed, mem_gather]
  constructor
  · rintro ⟨j, slot, place, member⟩
    obtain ⟨rfl, vacant⟩ := (mem_vacancy _ _ _).mp member
    exact ⟨slot, Array.getElem?_toList ▸ place, vacant⟩
  · rintro ⟨slot, place, vacant⟩
    exact ⟨i, slot, Array.getElem?_toList ▸ place, (mem_vacancy _ _ _).mpr ⟨rfl, vacant⟩⟩

theorem card_holding (f : Nat → Nat) (slots : List (Slot α)) :
    (gather (fun i => Slot.holding (f i)) slots).card = slots.countP Slot.taken := by
  induction slots generalizing f with
  | nil => rfl
  | cons s rest ih =>
      rw [gather, Multiset.card_add, ih fun i => f (i + 1), List.countP_cons, Nat.add_comm]
      unfold Slot.holding Slot.taken
      cases s.state <;> rfl

theorem sound_consistent (p : SlotPool α) (sound : p.Sound) : p.Consistent p.capacity := by
  have counted : p.outstanding = p.slots.toList.countP Slot.taken :=
    (p.outstanding_occupied sound).trans (card_holding id p.slots.toList)
  refine ⟨rfl, ?_, fun i member => ?_, fun i slot place => ?_, ?_, counted⟩
  · rw [← Multiset.coe_nodup, show (p.free : Multiset Nat) = _ from sound]
    refine gather_nodup _ _ id (fun i s => ?_) fun i s j member => ((mem_vacancy _ _ _).mp member).1
    unfold Slot.vacancy
    cases s.state <;> simp
  · obtain ⟨slot, place, -⟩ := (mem_free p sound i).mp member
    exact (Array.getElem?_eq_some_iff.mp place).1
  · rw [mem_free p sound i]
    constructor
    · exact fun vacant => ⟨slot, place, vacant⟩
    · rintro ⟨slot', place', vacant⟩
      cases place.symm.trans place'
      exact vacant
  · have total := p.vacant_occupied
    rw [← show (p.free : Multiset Nat) = _ from sound, Multiset.coe_card] at total
    rw [p.outstanding_occupied sound]
    exact total

theorem free_exhausted (p : SlotPool α) (n : Nat) (consistent : p.Consistent n) : p.free = [] ↔ p.outstanding = n := by
  have balance := consistent.balance
  rw [← List.length_eq_zero_iff, ← available]
  omega

theorem create_sound (n : Nat) (positive : 1 ≤ n) (bounded : n ≤ maximumCapacity) :
    ∃ first : SlotPool α, create n = .ok first ∧ first.Sound ∧ first.capacity = n :=
  ⟨ofCapacity n, if_pos ⟨positive, bounded⟩, sound_ofCapacity n, Array.size_replicate⟩

theorem call_allocate (a : α) (p : SlotPool α) (sound : p.Sound) :
    p.free = [] ∧ (p.call (.allocate a)).1 = .full a ∨
      p.free ≠ [] ∧ ∃ k generation, (p.call (.allocate a)).1 = .granted k ∧ p.slots[k.slot]? = some ⟨generation, .vacant⟩ := by
  have step := call_cases (.allocate a) p
  generalize p.call (.allocate a) = outcome at step
  obtain ⟨answer, next⟩ := outcome
  cases step with
  | exhausted a none => exact .inl ⟨none, rfl⟩
  | grant a k next allocated =>
      obtain ⟨generation, place, -⟩ := allocate_place a p next k sound allocated
      refine .inr ⟨fun none => ?_, k, generation, rfl, place⟩
      have free := (mem_free p sound k.slot).mpr ⟨_, place, rfl⟩
      rw [none] at free
      exact List.not_mem_nil free

/-- A pool of any size that can be created keeps its records in step, whatever is called on it. It refuses a value
exactly when every slot is taken, and a refused call or a look at a value leaves it as it was, also where the state
of a slot is overwritten before it is known what was there. -/
theorem records_agree (n : Nat) (calls : List (PoolCall α)) (positive : 1 ≤ n) (bounded : n ≤ maximumCapacity) :
    ∃ first, create n = .ok first ∧ (first.after calls).Consistent n ∧
      (∀ a, ((first.after calls).call (.allocate a)).1 = .full a ↔ (first.after calls).outstanding = n) ∧
      (∀ a, (first.after calls).outstanding ≠ n → ∃ k generation,
        ((first.after calls).call (.allocate a)).1 = .granted k ∧
          (first.after calls).slots[k.slot]? = some ⟨generation, .vacant⟩) ∧
      (∀ c, ((first.after calls).call c).1.Idle → ((first.after calls).call c).2 = first.after calls) ∧
      (∀ k, (first.after calls).retireInPlace k = (first.after calls).call (.retire k)) ∧
      (∀ k, (first.after calls).releaseInPlace k = (first.after calls).call (.release k)) := by
  obtain ⟨first, created, start, size⟩ := @create_sound α n positive bounded
  obtain ⟨sound, capacity⟩ := after_sound calls first start
  have consistent : (first.after calls).Consistent n := size ▸ capacity ▸ sound_consistent _ sound
  have exhausted := free_exhausted _ n consistent
  refine ⟨first, created, consistent, fun a => ?_, fun a room => ?_, fun c => calls_idle _ _ c _ (call_cases c _),
    fun k => retire_in_place k _, fun k => release_in_place k _⟩
  · rw [← exhausted]
    rcases call_allocate a _ sound with ⟨none, full⟩ | ⟨some, k, generation, granted, -⟩
    · exact ⟨fun _ => none, fun _ => full⟩
    · exact ⟨fun full => (nomatch granted.symm.trans full), fun none => absurd none some⟩
  · rcases call_allocate a _ sound with ⟨none, -⟩ | ⟨-, granted⟩
    · exact absurd (exhausted.mp none) room
    · exact granted

def reuse : List (PoolCall Nat) :=
  [.allocate 7, .allocate 8, .retire ⟨0, 1⟩, .release ⟨0, 1⟩, .release ⟨0, 1⟩, .allocate 9, .retire ⟨0, 1⟩]

theorem reused_records_agree : 1 ≤ 2 ∧ 2 ≤ maximumCapacity ∧
    ∃ first, create 2 = .ok first ∧ (first.after reuse).Consistent 2 ∧ (first.after reuse).outstanding = 2 ∧
      ((first.after reuse).call (.allocate 5)).1 = .full 5 ∧
      ((first.after reuse).call (.release ⟨0, 1⟩)).2 = first.after reuse := by
  obtain ⟨first, created, consistent, full, -, idle, -⟩ := records_agree 2 reuse (by decide) (by decide)
  obtain rfl : ofCapacity 2 = first := Except.ok.inj ((if_pos (by decide)).symm.trans created)
  have taken : ((ofCapacity 2).after reuse).outstanding = 2 := by decide
  have stale : (((ofCapacity 2).after reuse).call (.release ⟨0, 1⟩)).1.Idle := trivial
  exact ⟨by decide, by decide, _, created, consistent, taken, (full 5).mpr taken, idle _ stale⟩

end SlotPool

end HubRelay
