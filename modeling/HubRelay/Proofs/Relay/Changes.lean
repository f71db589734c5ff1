import HubRelay.Proofs.Relay.Traffic

/-! Each operation of the hub, as the changes that it makes. -/

set_option autoImplicit false

namespace HubRelay

variable {waiting : Multiset Outgoing} {hand : List (Nat × Epilogue)}

theorem follows_narrow (past : Hub) (t : Traffic) (known : Nat → Badge → Prop)
    (within : ∀ i badge, known i badge → t.known i badge) : Follows past t { t with known := known } :=
  .single (.narrow known within)

theorem follows_to {past : Hub} {t t' t'' : Traffic} (follows : Follows past t t') (same : t'' = t') :
    Follows past t t'' := by
  rw [same]
  exact follows

namespace Hub

theorem knows_set (h : Hub) (i : Nat) (l next : RunLoop) (place : h.loops[i]? = some l)
    (same : ∀ badge, next.Knows badge ↔ l.Knows badge) (j : Nat) (badge : Badge) :
    ({ h with loops := h.loops.set i next } : Hub).Knows j badge ↔ h.Knows j badge := by
  have bound := (List.getElem?_eq_some_iff.mp place).1
  by_cases here : i = j
  · subst here
    simp only [Knows, List.getElem?_set_self bound, place, Option.some.injEq, exists_eq_left']
    exact same badge
  · simp only [Knows, List.getElem?_set_ne here]

theorem knows_set_within (h : Hub) (i j : Nat) (l next : RunLoop) (badge : Badge) (place : h.loops[i]? = some l)
    (known : ({ h with loops := h.loops.set i next } : Hub).Knows j badge) :
    (j = i ∧ next.Knows badge) ∨ h.Knows j badge := by
  have bound := (List.getElem?_eq_some_iff.mp place).1
  by_cases here : i = j
  · subst here
    simp only [Knows, List.getElem?_set_self bound, Option.some.injEq, exists_eq_left'] at known
    exact .inl ⟨rfl, known⟩
  · simp only [Knows, List.getElem?_set_ne here] at known
    exact .inr known

theorem desks_set (h : Hub) (i : Nat) (l next : RunLoop) (place : h.loops[i]? = some l) (same : next.desk = l.desk) :
    (h.loops.set i next).map RunLoop.desk = h.loops.map RunLoop.desk := by
  apply List.ext_getElem?
  intro j
  by_cases here : i = j
  · subst here
    have bound := (List.getElem?_eq_some_iff.mp place).1
    simp only [List.getElem?_map, List.getElem?_set_self bound, place, Option.map_some, same]
  · simp only [List.getElem?_map, List.getElem?_set_ne here]

theorem traffic_set_more (h : Hub) (i : Nat) (l next : RunLoop) (more : Multiset (Nat × Errand))
    (place : h.loops[i]? = some l) (errands : next.errands i = more + l.errands i)
    (knows : ∀ badge, next.Knows badge ↔ l.Knows badge) (desk : next.desk = l.desk) :
    ({ h with loops := h.loops.set i next } : Hub).traffic waiting hand =
      { h.traffic waiting hand with errands := more + (h.traffic waiting hand).errands } := by
  simp only [traffic, knows_set h i l next place knows, desks_set h i l next place desk,
    gather_set_more RunLoop.errands h.loops i l next more place errands]
  rw [add_left_comm]

theorem traffic_set_less (h : Hub) (i : Nat) (l next : RunLoop) (less : Multiset (Nat × Errand))
    (place : h.loops[i]? = some l) (errands : l.errands i = less + next.errands i)
    (knows : ∀ badge, next.Knows badge ↔ l.Knows badge) (desk : next.desk = l.desk) :
    h.traffic waiting hand =
      { ({ h with loops := h.loops.set i next } : Hub).traffic waiting hand with
        errands := less + (({ h with loops := h.loops.set i next } : Hub).traffic waiting hand).errands } := by
  simp only [traffic, knows_set h i l next place knows, desks_set h i l next place desk,
    gather_set_less RunLoop.errands h.loops i l next less place errands]
  rw [add_left_comm]

theorem follows_set (past h : Hub) (i : Nat) (l next : RunLoop) (place : h.loops[i]? = some l)
    (errands : next.errands i = l.errands i) (knows : ∀ badge, next.Knows badge → l.Knows badge)
    (desk : next.desk = l.desk) :
    Follows past (h.traffic waiting hand)
      (({ h with loops := h.loops.set i next } : Hub).traffic waiting hand) := by
  have same : ({ h with loops := h.loops.set i next } : Hub).traffic waiting hand =
      { h.traffic waiting hand with
        known := (({ h with loops := h.loops.set i next } : Hub).traffic waiting hand).known } := by
    simp only [traffic, desks_set h i l next place desk,
      gather_set_same RunLoop.errands h.loops i l next place errands]
  rw [same]
  refine follows_narrow past _ _ fun j badge known => ?_
  cases known with
  | inl held => exact .inl held
  | inr known =>
      cases knows_set_within h i j l next badge place known with
      | inl here => exact .inr ⟨l, here.1 ▸ place, knows badge here.2⟩
      | inr there => exact .inr there

theorem modify_cases (h : Hub) (i : Nat) (f : RunLoop → RunLoop) :
    (h.loops[i]? = none ∧ h.modifyLoop i f = h) ∨
      ∃ l, h.loops[i]? = some l ∧ h.modifyLoop i f = { h with loops := h.loops.set i (f l) } := by
  cases place : h.loops[i]? with
  | none =>
      refine .inl ⟨rfl, ?_⟩
      have beyond := List.getElem?_eq_none_iff.mp place
      simp [modifyLoop, List.modify_eq_self beyond]
  | some l =>
      refine .inr ⟨l, rfl, ?_⟩
      obtain ⟨bound, here⟩ := List.getElem?_eq_some_iff.mp place
      simp [modifyLoop, List.modify_eq_set_getElem?, place]

theorem follows_modify (past h : Hub) (i : Nat) (f : RunLoop → RunLoop) (errands : ∀ l : RunLoop, (f l).errands i = l.errands i)
    (knows : ∀ l badge, (f l).Knows badge → l.Knows badge) (desk : ∀ l, (f l).desk = l.desk) :
    Follows past (h.traffic waiting hand) ((h.modifyLoop i f).traffic waiting hand) := by
  rcases modify_cases h i f with ⟨-, same⟩ | ⟨l, place, change⟩
  · rw [same]
  · rw [change]
    exact follows_set past h i l (f l) place (errands l) (knows l) (desk l)

end Hub

def Task.errands (i : Nat) (t : Task) : Multiset (Nat × Errand) := (t.errand?.toList.map (i, ·) : List _)

def Task.IsLoad : Task → Prop
  | .load _ _ => True
  | _ => False

namespace RunLoop

theorem errands_push (i : Nat) (t : Task) (l next : RunLoop) (queue : next.queue = l.queue.push t) :
    next.errands i = t.errands i + l.errands i := by
  rw [errands, queue, Fifo.toList_push, List.filterMap_append, List.map_append, ← Multiset.coe_add, add_comm]
  unfold Task.errands errands
  cases errand : t.errand? <;> simp [errand]

theorem errands_pop (i : Nat) (t : Task) (l next : RunLoop) (queue : l.queue.toList = t :: next.queue.toList) :
    l.errands i = t.errands i + next.errands i := by
  rw [errands, queue]
  unfold Task.errands errands
  cases errand : t.errand? <;> simp [errand]

theorem enqueue_cases (t : Task) (l next : RunLoop) (queued : l.enqueue t = .ok next) :
    next = { l with
      queue := l.queue.push t
      queuedEvents := if t.isEvent then l.queuedEvents + 1 else l.queuedEvents } := by
  unfold enqueue at queued
  split at queued
  · cases queued
  · split at queued
    · cases queued
    · split at queued
      · cases queued
      · exact (Except.ok.inj queued).symm

theorem enqueue_refused (t : Task) (l : RunLoop) (failure : LoopFailure) (refused : l.enqueue t = .error failure) :
    l.Closed ∨ t.isEvent = true ∧ l.Full := by
  unfold enqueue at refused
  split at refused
  · next stopped => exact .inl (.inl stopped)
  · split at refused
    · next full => simpa [Full] using Or.inr (a := l.Closed) full
    · split at refused
      · next gone => exact .inl (.inr (by simpa using gone))
      · cases refused

end RunLoop

namespace Hub

theorem enqueue_cases (h next : Hub) (i : Nat) (t : Task) (queued : h.enqueue i t = .ok next) :
    ∃ l after, h.loops[i]? = some l ∧ l.enqueue t = .ok after ∧ next = { h with loops := h.loops.set i after } := by
  unfold enqueue at queued
  split at queued
  · cases queued
  · next l place =>
      split at queued
      · cases queued
      · next after taken => exact ⟨l, after, place, taken, (Except.ok.inj queued).symm⟩

theorem enqueue_refused (h : Hub) (i : Nat) (t : Task) (failure : LoopFailure) (l : RunLoop)
    (refused : h.enqueue i t = .error failure) (place : h.loops[i]? = some l) :
    l.Closed ∨ t.isEvent = true ∧ l.Full := by
  simp only [enqueue, place] at refused
  split at refused
  · next cause taken => exact RunLoop.enqueue_refused t l cause taken
  · cases refused

theorem traffic_enqueue (h next : Hub) (i : Nat) (t : Task) (plain : ¬t.IsLoad) (queued : h.enqueue i t = .ok next) :
    next.traffic waiting hand =
      { h.traffic waiting hand with errands := t.errands i + (h.traffic waiting hand).errands } := by
  obtain ⟨l, after, place, taken, rfl⟩ := enqueue_cases h next i t queued
  have change := RunLoop.enqueue_cases t l after taken
  refine traffic_set_more h i l after _ place (RunLoop.errands_push i t l after (by rw [change])) ?_ (by rw [change]; rfl)
  intro badge
  rw [change]
  simp only [RunLoop.Knows, Fifo.toList_push, List.mem_append, List.mem_singleton]
  cases t <;> simp_all [Task.IsLoad]

end Hub

namespace Stack

theorem next_cases (i : Nat) (t : Task) (s next : Stack) (taken : s.next? i = some (t, next)) :
    ∃ l queue, s.hub.loops[i]? = some l ∧ l.queue.toList = t :: queue.toList ∧
      next = s.onHub fun h => { h with loops := h.loops.set i { l with queue := queue } } := by
  unfold next? loop? at taken
  cases place : s.hub.loops[i]? with
  | none => simp [place] at taken
  | some l =>
      simp only [place, Option.bind_some, RunLoop.next?, Option.map_eq_some_iff, Prod.mk.injEq, Prod.exists] at taken
      obtain ⟨t', l', ⟨t'', queue, popped, rfl, rfl⟩, rfl, rfl⟩ := taken
      exact ⟨l, queue, rfl, Fifo.toList_of_pop? popped, rfl⟩

end Stack

end HubRelay
