import HubRelay.Proofs.Link.Queue
import HubRelay.Proofs.Relay.Changes

/-! Completions, as the link reports them. -/

set_option autoImplicit false

namespace HubRelay

variable {waiting : Multiset Outgoing} {hand : List (Nat × Epilogue)}

namespace Hub

def outlook (h : Hub) : List RunLoop × Nat := (h.loops.map fun l => { l with queue := .empty }, h.registered)

theorem outlook_set (h : Hub) (i : Nat) (l next : RunLoop) (place : h.loops[i]? = some l)
    (same : { next with queue := .empty } = { l with queue := .empty }) :
    ({ h with loops := h.loops.set i next } : Hub).outlook = h.outlook := by
  unfold outlook
  congr 1
  apply List.ext_getElem?
  intro j
  by_cases here : i = j
  · subst here
    have bound := (List.getElem?_eq_some_iff.mp place).1
    simp only [List.getElem?_map, List.getElem?_set_self bound, place, Option.map_some, same]
  · simp only [List.getElem?_map, List.getElem?_set_ne here]

theorem locate_outlook (past h : Hub) (app : AppId) (same : past.outlook = h.outlook) :
    past.locate app = h.locate app := by
  have blind : ∀ g : Hub, g.locate app =
      (g.outlook.1.take g.outlook.2).zipIdx.findSome? fun x => (x.1.badge? app).map (x.2, ·) := by
    intro g
    simp only [locate, outlook, ← List.map_take, List.zipIdx_map, List.findSome?_map]
    rfl
  rw [blind, blind, same]

theorem home_outlook (past h : Hub) (app : AppId) (same : past.outlook = h.outlook) : past.home app = h.home app := by
  rw [home, home, locate_outlook past h app same]

theorem loop_outlook (past h : Hub) (i : Nat) (l : RunLoop) (same : past.outlook = h.outlook)
    (place : past.loops[i]? = some l) :
    ∃ l', h.loops[i]? = some l' ∧ ({ l with queue := .empty } : RunLoop) = { l' with queue := .empty } := by
  have view := congrArg (fun x => x.1[i]?) same
  simp only [outlook, List.getElem?_map, place, Option.map_some] at view
  obtain ⟨l', here, equal⟩ := Option.map_eq_some_iff.mp view.symm
  exact ⟨l', here, equal.symm⟩

theorem outlook_enqueue_job (h next : Hub) (i : Nat) (j : Job) (queued : h.enqueue i (.job j) = .ok next) :
    next.outlook = h.outlook ∧ next.relay = h.relay := by
  obtain ⟨l, after, place, taken, rfl⟩ := enqueue_cases h next i _ queued
  have change := RunLoop.enqueue_cases _ l after taken
  exact ⟨outlook_set h i l after place (by rw [change]; rfl), rfl⟩

@[simp] theorem traffic_note (h : Hub) (n : Note) : (h.note n).traffic waiting hand = h.traffic waiting hand := rfl

theorem noteDropped_cases (h : Hub) (callback : Option (FreeCallback Action)) :
    ∃ journal, h.noteDropped callback = { h with journal := journal } := by
  cases callback with
  | none => exact ⟨h.journal, rfl⟩
  | some callback => exact ⟨_, rfl⟩

theorem dropRelay_cases (h : Hub) : ∃ journal, h.dropRelay.2 = { h with relay := none, journal := journal } := by
  have dropped : ∀ (callbacks : List (Option (FreeCallback Action))) (g : Hub),
      ∃ journal, callbacks.foldl (fun h c => h.noteDropped c) g = { g with journal := journal } := by
    intro callbacks
    induction callbacks with
    | nil => exact fun g => ⟨g.journal, rfl⟩
    | cons callback rest ih =>
        intro g
        obtain ⟨journal, noted⟩ := g.noteDropped_cases callback
        obtain ⟨journal', later⟩ := ih (g.noteDropped callback)
        exact ⟨journal', by rw [List.foldl_cons, later, noted]⟩
  unfold dropRelay
  split
  · next relay => exact ⟨h.journal, by rw [← relay]⟩
  · exact dropped _ { h with relay := none }

@[simp] theorem traffic_noteDropped (h : Hub) (callback : Option (FreeCallback Action)) :
    (h.noteDropped callback).traffic waiting hand = h.traffic waiting hand := by
  obtain ⟨journal, dropped⟩ := h.noteDropped_cases callback
  rw [dropped]
  rfl

theorem traffic_record (h : Hub) (x : Happening) : (h.record x).traffic waiting hand =
    { h.traffic waiting hand with history := x :: (h.traffic waiting hand).history } := rfl

theorem traffic_count (h : Hub) (f : RelayTally → RelayTally)
    (keeps : ∀ t, (f t).callbacksAbandoned = t.callbacksAbandoned) :
    (h.count f).traffic waiting hand = h.traffic waiting hand := by
  unfold count onRelay traffic
  cases h.relay <;> simp [keeps, Knows]

theorem reclaim_cases (h : Hub) (k : Handle) :
    ∃ journal, h.reclaim k =
      { h with relay := h.relay.map fun r => { r with pool := r.pool.reclaimed k }, journal := journal } := by
  obtain ⟨loops, registered, relay, ledger, thread, journal, history⟩ := h
  cases relay with
  | none => exact ⟨journal, rfl⟩
  | some r =>
      simp only [reclaim, SlotPool.reclaimed, Option.map_some]
      cases r.pool.release k with
      | error failure => exact ⟨journal, rfl⟩
      | ok released => exact noteDropped_cases _ _

theorem traffic_reclaim (h : Hub) (k : Handle) : (h.reclaim k).traffic waiting hand =
    { h.traffic waiting hand with pool := (h.traffic waiting hand).pool.map (·.reclaimed k) } := by
  obtain ⟨journal, reclaimed⟩ := h.reclaim_cases k
  rw [reclaimed]
  unfold traffic
  cases h.relay <;> rfl

theorem outlook_reclaim (h : Hub) (k : Handle) : (h.reclaim k).outlook = h.outlook := by
  obtain ⟨journal, reclaimed⟩ := h.reclaim_cases k
  rw [reclaimed]
  rfl

def Spent (k : Handle) (h : Hub) : Prop := ∀ r, h.relay = some r → r.pool.retire k = none

theorem complete_spent (h : Hub) (k : Handle) (spent : h.Spent k) :
    (h.complete k).Spent k ∧ (h.complete k).traffic waiting hand = h.traffic waiting hand ∧
      (h.complete k).outlook = h.outlook := by
  cases relay : h.relay with
  | none =>
      have same : h.complete k = h := by rw [complete, relay]
      rw [same]
      exact ⟨spent, rfl, rfl⟩
  | some r =>
      have same : h.complete k = h.count RelayTally.countDuplicate := by
        rw [complete, relay]
        simp only [spent r relay]
      rw [same]
      refine ⟨fun r' relay' => ?_, traffic_count h _ fun _ => rfl, rfl⟩
      simp only [count, onRelay, relay, Option.map_some, Option.some.injEq] at relay'
      subst relay'
      exact spent r relay

theorem retire_spent (k : Handle) (p : SlotPool Parcel) (parcel : Parcel) (live : p.live? k = some parcel) :
    (p.put k .retiring).retire k = none ∧ ((p.put k .retiring).reclaimed k).retire k = none := by
  have reads := (SlotPool.mem_occupied k (some parcel) p).mp ((SlotPool.mem_occupied_live? k parcel p).mpr live)
  have retiring := SlotPool.state_put p k _ .retiring reads
  have member := (SlotPool.mem_occupied k none (p.put k .retiring)).mpr retiring
  constructor
  · rw [SlotPool.retire, retiring]
  · rw [SlotPool.reclaimed_member k _ none member, SlotPool.retire, SlotPool.state_vacate k _ none member]

def retired (k : Handle) (r : Relay) (h : Hub) : Hub :=
  { h with relay := some { r with pool := r.pool.put k .retiring, tally := r.tally.countCompletion } }

theorem traffic_retired (h : Hub) (k : Handle) (r : Relay) (relay : h.relay = some r) :
    (h.retired k r).traffic waiting hand = { h.traffic waiting hand with pool := some (r.pool.put k .retiring) } := by
  simp only [retired, traffic, relay]
  rfl

theorem traffic_countAbandoned (h : Hub) (r : Relay) (relay : h.relay = some r) :
    (h.count RelayTally.countAbandoned).traffic waiting hand =
      { h.traffic waiting hand with abandoned := (h.traffic waiting hand).abandoned + 1 } := by
  simp only [count, onRelay, traffic, relay]
  rfl

theorem closed_outlook (past h : Hub) (i : Nat) (j : Job) (failure : LoopFailure) (same : past.outlook = h.outlook)
    (refused : h.enqueue i (.job j) = .error failure) (l : RunLoop) (place : past.loops[i]? = some l) : l.Closed := by
  obtain ⟨l', here, equal⟩ := loop_outlook past h i l same place
  rcases enqueue_refused h i (.job j) failure l' refused here with (stopped | gone) | ⟨event, -⟩
  · exact .inl ((congrArg RunLoop.stopped equal).trans stopped)
  · exact .inr ((congrArg RunLoop.attached equal).trans gone)
  · cases event

theorem complete_live (h : Hub) (k : Handle) (r : Relay) (parcel : Parcel) (relay : h.relay = some r)
    (live : r.pool.live? k = some parcel) :
    h.complete k =
      match parcel.callback with
      | none => ((h.retired k r).reclaim k).record (.completed parcel.serial .released)
      | some callback =>
          match (h.retired k r).enqueue (h.home parcel.message.app)
              (.job (.handBack k parcel.serial callback parcel.message.payload)) with
          | .ok h' => h'.record (.completed parcel.serial (.handed (h.home parcel.message.app)))
          | .error _ =>
              ((((h.retired k r).note (.freeDropped callback.label)).count RelayTally.countAbandoned).reclaim k).record
                (.completed parcel.serial (.abandoned (h.home parcel.message.app))) := by
  simp only [complete, relay, SlotPool.retire_live k r.pool parcel live]
  rfl

theorem spent_retired (h : Hub) (k : Handle) (r : Relay) (parcel : Parcel) (live : r.pool.live? k = some parcel) :
    (h.retired k r).Spent k := by
  intro r' other
  cases other
  exact (retire_spent k r.pool parcel live).1

-- Completes a message that waits no more; nothing is left for a second report of it.
theorem complete_follows (past h : Hub) (m : Outgoing) (same : past.outlook = h.outlook) :
    Follows past (h.traffic (m ::ₘ waiting) hand) ((h.complete m.handle).traffic waiting hand) ∧
      (h.complete m.handle).Spent m.handle ∧ (h.complete m.handle).outlook = h.outlook := by
  cases relay : h.relay with
  | none =>
      have idle : h.complete m.handle = h := by rw [complete, relay]
      rw [idle]
      refine ⟨.single (.lose m waiting rfl fun p alive => ?_), fun r other => ?_, rfl⟩
      · simp [traffic, relay] at alive
      · rw [relay] at other
        cases other
  | some r =>
      have alive : (h.traffic (m ::ₘ waiting) hand).pool = some r.pool := by simp [traffic, relay]
      cases live : r.pool.live? m.handle with
      | none =>
          have spent : h.Spent m.handle := fun r' other => by
            rw [relay] at other
            cases other
            exact SlotPool.retire_stale m.handle r.pool live
          obtain ⟨spent', same', outlook'⟩ := @complete_spent waiting hand h m.handle spent
          refine ⟨?_, spent', outlook'⟩
          rw [same']
          refine .single (.lose m waiting rfl fun p other => ?_)
          rw [alive] at other
          cases other
          exact live
      | some parcel =>
          have home : past.home parcel.message.app = h.home parcel.message.app := home_outlook past h _ same
          have vacant := (retire_spent m.handle r.pool parcel live).2
          rw [complete_live h m.handle r parcel relay live]
          cases heard : parcel.callback with
          | none =>
              refine ⟨.single ?_, ?_, outlook_reclaim _ _⟩
              · simp only [traffic_record, traffic_reclaim, traffic_retired h m.handle r relay]
                exact .release m waiting r.pool parcel rfl alive live heard
              · intro r' other
                obtain ⟨journal, reclaimed⟩ := (h.retired m.handle r).reclaim_cases m.handle
                simp only [record, reclaimed] at other
                cases other
                exact vacant
          | some callback =>
              simp only
              split
              · next next queued =>
                  obtain ⟨outlook', relay'⟩ := outlook_enqueue_job _ _ _ _ queued
                  refine ⟨.single ?_, ?_, outlook'⟩
                  · rw [traffic_record, traffic_enqueue _ _ _ _ id queued, traffic_retired h m.handle r relay]
                    exact .hand m waiting r.pool parcel callback _ rfl alive live heard home
                  · intro r' other
                    exact spent_retired h m.handle r parcel live r' (relay' ▸ other)
              · next failure refused =>
                  refine ⟨.single ?_, ?_, outlook_reclaim _ _⟩
                  · rw [traffic_record, traffic_reclaim,
                      traffic_countAbandoned ((h.retired m.handle r).note _) _ rfl, traffic_note,
                      traffic_retired h m.handle r relay]
                    exact .abandon m waiting r.pool parcel callback _ rfl alive live heard home
                      (closed_outlook past (h.retired m.handle r) _ _ failure same refused)
                  · intro r' other
                    obtain ⟨journal, reclaimed⟩ := reclaim_cases
                      (((h.retired m.handle r).note (.freeDropped callback.label)).count RelayTally.countAbandoned) m.handle
                    simp only [record, reclaimed] at other
                    cases other
                    exact vacant

end Hub

namespace Uplink

open Hub

theorem report_follows (past h : Hub) (m : Outgoing) (n : Nat) (same : past.outlook = h.outlook) :
    Follows past (h.traffic (m ::ₘ waiting) hand) ((reportTimes Hub.complete (n + 1) m.handle h).traffic waiting hand) ∧
      (reportTimes Hub.complete (n + 1) m.handle h).outlook = h.outlook := by
  have again : ∀ (n : Nat) (h : Hub), h.Spent m.handle →
      (reportTimes Hub.complete n m.handle h).traffic waiting hand = h.traffic waiting hand ∧
        (reportTimes Hub.complete n m.handle h).outlook = h.outlook := by
    intro n
    induction n with
    | zero => intro h _; exact ⟨rfl, rfl⟩
    | succ n ih =>
        intro h spent
        obtain ⟨spent', traffic', outlook'⟩ := @complete_spent waiting hand h m.handle spent
        obtain ⟨later, view⟩ := ih (h.complete m.handle) spent'
        exact ⟨later.trans traffic', view.trans outlook'⟩
  obtain ⟨first, spent, outlook'⟩ := @complete_follows waiting hand past h m same
  obtain ⟨later, view⟩ := again n (h.complete m.handle) spent
  rw [reportTimes, later]
  exact ⟨first, view.trans outlook'⟩

theorem reports_positive (u : Uplink) : ∃ n, u.reports = n + 1 := by
  unfold reports
  split
  · exact ⟨1, rfl⟩
  · exact ⟨0, rfl⟩

theorem transmit_follows (past h : Hub) (m : Outgoing) (fails : Bool) (u : Uplink) (same : past.outlook = h.outlook) :
    Follows past (h.traffic (m ::ₘ waiting) hand) ((transmit Hub.complete m fails u h).2.traffic waiting hand) ∧
      (transmit Hub.complete m fails u h).2.outlook = h.outlook ∧
      (transmit Hub.complete m fails u h).1.queue = u.queue := by
  obtain ⟨n, reports⟩ := reports_positive (u.record m fails)
  simp only [transmit, reports]
  obtain ⟨follows, outlook'⟩ := @report_follows waiting hand past h m n same
  exact ⟨follows, outlook', record_queue m fails u⟩

theorem pump_follows (past h : Hub) (limit : Nat) (u : Uplink) (same : past.outlook = h.outlook) :
    Follows past (h.traffic u.queue.toList hand)
      ((pump Hub.complete limit u h).2.2.traffic (pump Hub.complete limit u h).2.1.queue.toList hand) ∧
      (pump Hub.complete limit u h).2.2.outlook = h.outlook := by
  induction limit generalizing u h with
  | zero => exact ⟨.refl, rfl⟩
  | succ limit ih =>
      rw [pump]
      split
      · exact ⟨.refl, rfl⟩
      · next m fails u' taken =>
          obtain ⟨first, view, rest⟩ :=
            @transmit_follows u'.queue.toList hand past h m fails u' same
          obtain ⟨later, view'⟩ := ih (transmit Hub.complete m fails u' h).2 (transmit Hub.complete m fails u' h).1
            (same.trans view.symm)
          rw [rest] at later
          rw [(take_some taken).1]
          exact ⟨first.trans later, view'.trans view⟩

theorem haul_follows (past h : Hub) (u : Uplink) (same : past.outlook = h.outlook) :
    Follows past (h.traffic u.queue.toList hand)
      ((haul Hub.complete u h).2.traffic (haul Hub.complete u h).1.queue.toList hand) ∧
      (haul Hub.complete u h).2.outlook = h.outlook := by
  unfold haul
  split
  · exact pump_follows past h _ u same
  · exact ⟨.refl, rfl⟩

theorem failAll_follows (past h : Hub) (messages : List Outgoing) (u : Uplink) (same : past.outlook = h.outlook) :
    Follows past (h.traffic (messages + u.queue.toList) hand)
      ((failAll Hub.complete messages u h).2.traffic (failAll Hub.complete messages u h).1.queue.toList hand) ∧
      (failAll Hub.complete messages u h).2.outlook = h.outlook := by
  induction messages generalizing u h with
  | nil => simpa [failAll] using Relation.ReflTransGen.refl
  | cons m rest ih =>
      obtain ⟨first, view, queue⟩ :=
        @transmit_follows (rest + u.queue.toList) hand past h m true u same
      obtain ⟨later, view'⟩ := ih (transmit Hub.complete m true u h).2 (transmit Hub.complete m true u h).1
        (same.trans view.symm)
      rw [queue] at later
      rw [failAll, ← Multiset.cons_coe, Multiset.cons_add]
      exact ⟨first.trans later, view'.trans view⟩

theorem shutdown_follows (past h : Hub) (u : Uplink) (same : past.outlook = h.outlook) :
    Follows past (h.traffic u.queue.toList hand)
      ((shutdown Hub.complete u h).2.traffic (shutdown Hub.complete u h).1.queue.toList hand) := by
  unfold shutdown
  split
  · exact .refl
  · obtain ⟨first, view⟩ := @haul_follows hand past h u same
    have later := (@failAll_follows hand past (haul Hub.complete u h).2
      (haul Hub.complete u h).1.queue.toList (haul Hub.complete u h).1.close.takeAll.2 (same.trans view.symm)).1
    refine first.trans ?_
    simpa [takeAll, close, flush] using later

end Uplink

end HubRelay
