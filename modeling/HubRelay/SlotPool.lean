import HubRelay.Failure

/-! A fixed number of slots, handed out from a stack. Each allocation of a slot bumps its generation,
so that a handle kept past its release no longer reaches it. -/

set_option autoImplicit false

namespace HubRelay

inductive SlotState (α : Type) where
  | vacant
  | live (value : α)
  -- The value was taken out; the slot stays reserved until it is released.
  | retiring

structure Slot (α : Type) where
  generation : UInt32
  state : SlotState α

structure SlotPool (α : Type) where
  slots : Array (Slot α)
  -- Indices of the vacant slots, the next one to be handed out first.
  free : List Nat

namespace SlotPool

variable {α : Type}

def maximumCapacity : Nat := 4294967295

def ofCapacity (n : Nat) : SlotPool α := ⟨Array.replicate n ⟨0, .vacant⟩, List.range n⟩

def create (n : Nat) : Except PoolFailure (SlotPool α) :=
  if 1 ≤ n ∧ n ≤ maximumCapacity then .ok (ofCapacity n) else .error (.capacity n maximumCapacity)

def capacity (p : SlotPool α) : Nat := p.slots.size
def available (p : SlotPool α) : Nat := p.free.length
def outstanding (p : SlotPool α) : Nat := p.capacity - p.available

def state? (k : Handle) (p : SlotPool α) : Option (SlotState α) :=
  match p.slots[k.slot]? with
  | some slot => if slot.generation = k.generation then some slot.state else none
  | none => none

def put (k : Handle) (state : SlotState α) (p : SlotPool α) : SlotPool α :=
  { p with slots := p.slots.setIfInBounds k.slot ⟨k.generation, state⟩ }

def vacate (k : Handle) (p : SlotPool α) : SlotPool α :=
  ⟨p.slots.setIfInBounds k.slot ⟨k.generation, .vacant⟩, k.slot :: p.free⟩

@[inline] def allocate (a : α) : SlotPool α → Option (Handle × SlotPool α)
  | ⟨slots, i :: free⟩ =>
      let generation := (slots[i]?.map (·.generation)).getD 0 + 1
      some (⟨i, generation⟩, ⟨slots.setIfInBounds i ⟨generation, .live a⟩, free⟩)
  | ⟨_, []⟩ => none

def live? (k : Handle) (p : SlotPool α) : Option α :=
  match p.state? k with
  | some (.live a) => some a
  | _ => none

@[inline] def retire (k : Handle) (p : SlotPool α) : Option (α × SlotPool α) :=
  match p.state? k with
  | some (.live a) => some (a, p.put k .retiring)
  | _ => none

@[inline] def release (k : Handle) (p : SlotPool α) : Except PoolFailure (Option α × SlotPool α) :=
  match p.state? k with
  | some (.live a) => .ok (some a, p.vacate k)
  | some .retiring => .ok (none, p.vacate k)
  | some .vacant | none => .error (.stale k)

def liveValues (p : SlotPool α) : List α :=
  p.slots.toList.filterMap fun s =>
    match s.state with
    | .live a => some a
    | _ => none

end SlotPool

end HubRelay
