import HubRelay.Proofs.Relay.Soundness

/-! The owners of the slots between tasks, read off the queues: no slot leaks, and none is freed twice. -/

set_option autoImplicit false

namespace HubRelay

namespace Task

def handBack? : Task → Option Handle
  | .job (.handBack k _ _ _) => some k
  | _ => none

def hostEvent? : Task → Option Handle
  | .event e =>
      match e.hook with
      | some (.reclaim k _) => some k
      | _ => none
  | _ => none

def putOff? : Task → Option Handle
  | .job (.retry k _) => some k
  | _ => none

end Task

def Hub.tasks (h : Hub) : List Task := h.loops.flatMap (·.queue.toList)

def marked (live : Bool) (handles : List Handle) : Multiset (Handle × Bool) := handles.map (·, live)

theorem marked_cons (live : Bool) (k : Handle) (handles : List Handle) :
    marked live (k :: handles) = (k, live) ::ₘ marked live handles := rfl

-- The owners of slots that user code cannot see: what the queues hold, and what the link owes.
def Scene.owners (c : Scene) : Multiset (Handle × Bool) :=
  marked true ((unreported c.stack.hub.history).map (·.2)) + marked false (c.stack.hub.tasks.filterMap Task.handBack?) +
    marked true (c.stack.hub.tasks.filterMap Task.hostEvent?) + marked true (c.stack.hub.tasks.filterMap Task.putOff?)

def Tenure.live : Tenure → Bool
  | .retiring => false
  | _ => true

theorem tenure_live (v : Option Parcel) : (tenure v).live = v.isSome := by
  cases v with
  | none => rfl
  | some parcel =>
      simp only [tenure, Parcel.tenure]
      cases parcel.message.header <;> rfl

def Tenure.sending? (x : Handle × Tenure) : Option Handle :=
  match x.2 with
  | .sending _ => some x.1
  | _ => none

theorem sent_holdings (p : SlotPool Parcel) : p.sent.map (·.2) = p.holdings.filterMap Tenure.sending? := by
  rw [SlotPool.sent, SlotPool.holdings, Multiset.map_filterMap, Multiset.filterMap_map]
  congr 1
  funext x
  obtain ⟨k, v⟩ := x
  cases v with
  | none => rfl
  | some parcel =>
      simp only [sentEntry, Function.comp_apply, Tenure.sending?, tenure, Option.bind_some]
      cases parcel.tenure <;> rfl

theorem errands_sending (errands : Multiset (Nat × Errand)) :
    (errands.map (·.2.holding)).filterMap Tenure.sending? = 0 := by
  rw [Multiset.filterMap_map]
  refine Multiset.eq_zero_of_forall_notMem fun k member => ?_
  obtain ⟨⟨i, x⟩, -, found⟩ := (Multiset.mem_filterMap _ _).mp member
  cases x <;> cases found

theorem waiting_sending (waiting : Multiset Outgoing) :
    (waiting.map Outgoing.holding).filterMap Tenure.sending? = waiting.map (·.handle) := by
  rw [Multiset.filterMap_map]
  exact congrFun (Multiset.filterMap_eq_map Outgoing.handle) waiting

theorem Traffic.waiting_unreported (t : Traffic) (p : SlotPool Parcel) (sound : t.Sound) (alive : t.pool = some p) :
    t.waiting.map (·.handle) = ((unreported t.history).map (·.2) : List Handle) := by
  have listed := sound.reported.listed p alive
  have holds := (sound.owned p alive).2
  rw [← Multiset.map_coe, listed, sent_holdings, holds, holders, Multiset.filterMap_add, waiting_sending,
    errands_sending, add_zero]

section Views

variable {β : Type} (f : Errand → Option β)

theorem view_skip (i : Nat) (x : Errand) (es : Multiset (Nat × Errand)) (silent : f x = none) :
    ((i, x) ::ₘ es).filterMap (f ·.2) = es.filterMap (f ·.2) :=
  Multiset.filterMap_cons_none _ _ silent

theorem view_gain (i : Nat) (x : Errand) (b : β) (es : Multiset (Nat × Errand)) (seen : f x = some b) :
    ((i, x) ::ₘ es).filterMap (f ·.2) = b ::ₘ es.filterMap (f ·.2) :=
  Multiset.filterMap_cons_some _ _ _ seen

end Views

theorem gather_tasks (loops : List RunLoop) :
    (gather RunLoop.errands loops).map (·.2) = ((loops.flatMap (·.queue.toList)).filterMap Task.errand? : List Errand) := by
  have apart : ∀ (f : Nat → Nat), (gather (fun i => RunLoop.errands (f i)) loops).map (·.2) =
      ((loops.flatMap (·.queue.toList)).filterMap Task.errand? : List Errand) := by
    induction loops with
    | nil => intro f; rfl
    | cons l rest ih =>
        intro f
        have head : (RunLoop.errands (f 0) l).map (·.2) = (l.queue.toList.filterMap Task.errand? : List Errand) := by
          simp [RunLoop.errands]
        rw [gather, Multiset.map_add, ih fun i => f (i + 1), head, List.flatMap_cons, List.filterMap_append,
          ← Multiset.coe_add]
  exact apart id

theorem tasks_owners (tasks : List Task) :
    ((tasks.filterMap Task.errand? : List Errand) : Multiset Errand).map (fun x => (x.holding.1, x.holding.2.live)) =
      marked false (tasks.filterMap Task.handBack?) + marked true (tasks.filterMap Task.hostEvent?) +
        marked true (tasks.filterMap Task.putOff?) := by
  induction tasks with
  | nil => rfl
  | cons t rest ih =>
      have skip : t.errand? = none → t.handBack? = none → t.hostEvent? = none → t.putOff? = none →
          (((t :: rest).filterMap Task.errand? : List Errand) : Multiset Errand).map
              (fun x => (x.holding.1, x.holding.2.live)) =
            marked false ((t :: rest).filterMap Task.handBack?) + marked true ((t :: rest).filterMap Task.hostEvent?) +
              marked true ((t :: rest).filterMap Task.putOff?) := by
        intro errand handBack hostEvent retry
        rw [List.filterMap_cons_none errand, List.filterMap_cons_none handBack, List.filterMap_cons_none hostEvent,
          List.filterMap_cons_none retry]
        exact ih
      cases t with
      | load | unload | stop => exact skip rfl rfl rfl rfl
      | job j =>
          cases j with
          | user label script => exact skip rfl rfl rfl rfl
          | handBack k n callback payload =>
              have errand : (Task.job (.handBack k n callback payload)).errand? = some (.handBack k n callback payload) := rfl
              have owner : (Task.job (.handBack k n callback payload)).handBack? = some k := rfl
              rw [List.filterMap_cons_some errand, List.filterMap_cons_some owner, List.filterMap_cons_none rfl,
                List.filterMap_cons_none rfl, ← Multiset.cons_coe, Multiset.map_cons, ih, marked_cons]
              simp only [Errand.holding, Tenure.live, Multiset.cons_add]
          | retry k n =>
              have errand : (Task.job (.retry k n)).errand? = some (.retry k n) := rfl
              have owner : (Task.job (.retry k n)).putOff? = some k := rfl
              rw [List.filterMap_cons_some errand, List.filterMap_cons_some owner, List.filterMap_cons_none rfl,
                List.filterMap_cons_none rfl, ← Multiset.cons_coe, Multiset.map_cons, ih, marked_cons]
              simp only [Errand.holding, Tenure.live, Multiset.add_cons]
      | event e =>
          rcases Hub.event_cases e with ⟨k, n, bears⟩ | ⟨plain, errand, -, -⟩
          · have hook : e.hook = some (.reclaim k n) := bears
            have owner : (Task.event e).hostEvent? = some k := by simp only [Task.hostEvent?, hook]
            rw [List.filterMap_cons_some (Hub.bears_errand k n e bears).1, List.filterMap_cons_some owner,
              List.filterMap_cons_none rfl, List.filterMap_cons_none rfl, ← Multiset.cons_coe, Multiset.map_cons, ih,
              marked_cons]
            simp only [Errand.holding, Tenure.live, Multiset.add_cons, Multiset.cons_add]
          · refine skip errand rfl ?_ rfl
            simp only [Task.hostEvent?]
            split
            · next k n hook => exact absurd hook (plain k n)
            · rfl

theorem errands_owners (h : Hub) (waiting : Multiset Outgoing) :
    ((h.traffic waiting []).errands.map (·.2.holding)).map (fun x => (x.1, x.2.live)) =
      marked false (h.tasks.filterMap Task.handBack?) + marked true (h.tasks.filterMap Task.hostEvent?) +
        marked true (h.tasks.filterMap Task.putOff?) := by
  have queued : (h.traffic waiting []).errands = gather RunLoop.errands h.loops := zero_add _
  have split : ∀ s : Multiset (Nat × Errand), (s.map (·.2.holding)).map (fun x => (x.1, x.2.live)) =
      (s.map (·.2)).map fun x => (x.holding.1, x.holding.2.live) := by
    intro s
    rw [Multiset.map_map, Multiset.map_map]
    rfl
  rw [queued, split, gather_tasks]
  exact tasks_owners h.tasks

/-- At every moment of a lawful run between tasks, the slots that are taken are, by handle, those that the
link or one queue answers for, and each is live or retiring as its owner needs it. -/
theorem Scene.slots_owned (link : LinkSettings) (c : Scene) (moves : List Move) (opens : c.Opens link)
    (lawful : ∀ m ∈ moves, m.Lawful) (kept : .dropRelay ∉ moves) (between : (c.run moves).hand = []) :
    ∃ r, (c.run moves).stack.hub.relay = some r ∧
      (r.pool.occupied.map (·.1)).Nodup ∧
      r.pool.occupied.map (fun x => (x.1, x.2.isSome)) = (c.run moves).owners ∧
      r.pool.outstanding = (c.run moves).owners.card ∧
      (c.run moves).stack.link.waiting.map (·.handle) = ((unreported (c.run moves).stack.hub.history).map (·.2) : List Handle) := by
  obtain ⟨-, sound⟩ := run_sound link c moves opens lawful
  obtain ⟨linked, blank⟩ := opens_blank link c opens
  have living : c.traffic.pool.isSome := by
    obtain ⟨n, pool⟩ := blank.pool
    rw [pool]
    rfl
  obtain ⟨p, alive⟩ := Option.isSome_iff_exists.mp (run_alive moves c lawful kept linked living)
  obtain ⟨r, relay, rfl⟩ := Option.map_eq_some_iff.mp alive
  have waits := (c.run moves).traffic.waiting_unreported r.pool sound alive
  have holds := (sound.owned r.pool alive).2
  have same : r.pool.occupied.map (fun x => (x.1, x.2.isSome)) = (c.run moves).owners := by
    have view : r.pool.occupied.map (fun x => (x.1, x.2.isSome)) = r.pool.holdings.map fun x => (x.1, x.2.live) := by
      rw [SlotPool.holdings, Multiset.map_map]
      exact Multiset.map_congr rfl fun x _ => by simp only [Function.comp_apply, tenure_live]
    have owed : ((c.run moves).traffic.waiting.map Outgoing.holding).map (fun x => (x.1, x.2.live)) =
        marked true ((unreported (c.run moves).stack.hub.history).map (·.2)) := by
      rw [Multiset.map_map, marked, ← Multiset.map_coe]
      have owed := congrArg (Multiset.map (·, true)) waits
      rw [Multiset.map_map] at owed
      exact owed
    have queued := errands_owners (c.run moves).stack.hub (c.run moves).stack.link.waiting
    rw [← between] at queued
    rw [view, holds, Traffic.holders, Multiset.map_add, owed, owners, add_assoc, add_assoc, ← add_assoc (marked false _)]
    exact congrArg _ queued
  refine ⟨r, relay, r.pool.occupied_nodup, same, ?_, waits⟩
  rw [← same, Multiset.card_map]
  exact r.pool.outstanding_occupied (sound.owned r.pool alive).1

theorem Scene.busy_slots_owned : (∀ m ∈ busy, m.Lawful) ∧ .dropRelay ∉ busy ∧ (small.run busy).hand = [] ∧
    (small.run busy).owners = {(⟨1, 1⟩, true), (⟨0, 1⟩, false), (⟨2, 1⟩, true), (⟨3, 1⟩, true)} ∧
    ∃ r, (small.run busy).stack.hub.relay = some r ∧
      r.pool.occupied.map (fun x => (x.1, x.2.isSome)) = (small.run busy).owners := by
  have lawful : ∀ m ∈ busy, m.Lawful := fun m member => calmed_lawful.1 m (List.mem_append_left _ member)
  have kept : .dropRelay ∉ busy := fun member => calmed_lawful.2 (List.mem_append_left _ member)
  obtain ⟨r, relay, -, owned, -⟩ := slots_owned _ small busy small_opens lawful kept rfl
  exact ⟨lawful, kept, rfl, by decide, r, relay, owned⟩

end HubRelay
