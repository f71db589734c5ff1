import HubRelay.Proofs.Relay.CompletionReach

/-! What a retry does under any handle. Like a completion, it takes whatever message is live in the slot for its own, so
how often a message is posted goes by how often retries named it. -/

set_option autoImplicit false

namespace HubRelay

namespace Hub

structure GivenBack (k : Handle) (parcel : Parcel) (h next : Hub) : Prop where
  loops : next.loops = h.loops
  gone : next.live? k = none
  others : ∀ i, i ≠ k.slot → next.slot? i = h.slot? i
  vacant : next.vacant = k.slot :: h.vacant
  journal : next.journal = (h.noteDropped parcel.callback).journal

/-- The one attempt to post a live message that a retry makes. The message keeps its slot only if it was posted. -/
inductive Retried (k : Handle) (parcel : Parcel) (h : Hub) (outcome : Bool × Hub) : Prop
  | posted (i : Nat) (badge : Badge) (l after : RunLoop) (located : h.locate parcel.message.app = some (i, badge))
      (place : h.loops[i]? = some l) (queued : l.enqueue (.event (parcel.event k badge.inst)) = .ok after)
      (answer : outcome.1 = true) (loops : outcome.2.loops = h.loops.set i after)
      (pool : outcome.2.relay.map (·.pool) = h.relay.map (·.pool))
      (tally : outcome.2.tally = { h.tally with deferredDelivered := h.tally.deferredDelivered + 1 })
      (journal : outcome.2.journal = h.journal) (told : outcome.2.history = .posted parcel.serial i badge :: h.history)
  | turnedAway (i : Nat) (badge : Badge) (located : h.locate parcel.message.app = some (i, badge))
      (shut : ∀ l, h.loops[i]? = some l → l.Closed ∨ l.Full) (answer : outcome.1 = false)
      (back : GivenBack k parcel h outcome.2) (tally : outcome.2.tally = h.tally)
      (told : outcome.2.history = .turnedAway parcel.serial :: h.history)
  | strayed (unlocated : h.locate parcel.message.app = none) (answer : outcome.1 = false)
      (back : GivenBack k parcel h outcome.2)
      (tally : outcome.2.tally = { h.tally with unknownDestination := h.tally.unknownDestination + 1 })
      (told : outcome.2.history = .strayed parcel.serial :: h.history)

theorem retry_stale (k : Handle) (h : Hub) (stale : h.live? k = none) : h.retry k = (false, h) := by
  rw [live?] at stale
  rw [retry, stale]

theorem reclaim_live (k : Handle) (h : Hub) (r : Relay) (parcel : Parcel) (relay : h.relay = some r)
    (lives : r.pool.live? k = some parcel) :
    h.reclaim k = ({ h with relay := some { r with pool := r.pool.vacate k } } : Hub).noteDropped parcel.callback := by
  have released := SlotPool.release_member k r.pool (some parcel) ((SlotPool.mem_occupied_live? k parcel r.pool).mpr lives)
  simp only [reclaim, relay, released, Option.bind_some]

theorem reclaim_givenBack (k : Handle) (parcel : Parcel) (h g : Hub) (r : Relay) (tally : RelayTally) (x : Happening)
    (relay : h.relay = some r) (lives : r.pool.live? k = some parcel)
    (counted : g = { h with relay := some { r with tally := tally } }) :
    GivenBack k parcel h ((g.reclaim k).record x) ∧ ((g.reclaim k).record x).tally = tally ∧
      ((g.reclaim k).record x).history = x :: h.history := by
  have reclaimed := reclaim_live k g { r with tally := tally } parcel (by rw [counted]) lives
  obtain ⟨journal, dropped⟩ := noteDropped_cases
    ({ g with relay := some { r with pool := r.pool.vacate k, tally := tally } } : Hub) parcel.callback
  have relay' : ((g.reclaim k).record x).relay = some { r with pool := r.pool.vacate k, tally := tally } := by
    rw [reclaimed, dropped]
    rfl
  obtain ⟨gone, others, vacant, tallied⟩ := slot_emptied relay lives relay'
  refine ⟨⟨?_, gone, others, vacant, ?_⟩, tallied, ?_⟩
  · rw [reclaimed, dropped, counted]
    rfl
  · rw [reclaimed, counted]
    cases parcel.callback <;> rfl
  · rw [reclaimed, dropped, counted]
    rfl

theorem retry_retried (k : Handle) (parcel : Parcel) (h : Hub) (live : h.live? k = some parcel) :
    Retried k parcel h (h.retry k) := by
  obtain ⟨r, relay, lives⟩ := Option.bind_eq_some_iff.mp live
  have found : h.relay.bind (·.pool.live? k) = some parcel := live
  have tally := tally_relay h r relay
  have counted : ∀ f : RelayTally → RelayTally, h.count f = { h with relay := some { r with tally := f r.tally } } := by
    intro f
    rw [count, onRelay, relay, Option.map_some]
  rcases attempt_cases h k parcel with ⟨unlocated, attempted⟩ | ⟨i, badge, located, ⟨next, queued, attempted⟩ | ⟨failure, queued, attempted⟩⟩
  · obtain ⟨back, tallied, told⟩ :=
      reclaim_givenBack k parcel h _ r _ (.strayed parcel.serial) relay lives (counted RelayTally.countUnknown)
    simp only [retry, found, attempted]
    exact .strayed unlocated rfl back (by rw [tallied, tally]; rfl) told
  · obtain ⟨l, after, place, taken, rfl⟩ := enqueue_cases h next i _ queued
    simp only [retry, found, attempted]
    refine .posted i badge l after located place taken rfl rfl ?_ ?_ rfl rfl
    · simp only [count, onRelay, record, relay, Option.map_some]
    · simp only [Hub.tally, count, onRelay, record, relay, Option.map_some, Option.getD_some, RelayTally.countDeferredDelivered]
  · have shut : ∀ l, h.loops[i]? = some l → l.Closed ∨ l.Full := by
      intro l place
      rcases enqueue_refused h i _ failure l queued place with closed | ⟨-, full⟩
      · exact .inl closed
      · exact .inr full
    obtain ⟨back, tallied, told⟩ := reclaim_givenBack k parcel h h r r.tally (.turnedAway parcel.serial) relay lives (by rw [← relay])
    simp only [retry, found, attempted]
    exact .turnedAway i badge located shut rfl back (by rw [tallied, tally]) told

end Hub

namespace Custody

variable {t : Custody} {size : Nat}

theorem owed_posts (owed : t.Owed) (n : Nat) : t.posts.count n ≤ t.arrivals.count n + t.named.count n := by
  have below := Multiset.count_le_of_le n (le_trans (Multiset.le_add_right _ _) owed)
  rw [causes, Multiset.count_add, Multiset.coe_count, Multiset.coe_count, Multiset.coe_count] at below
  exact below

theorem arrivals_once (numbered : t.Numbered) : t.arrivals.Nodup :=
  (List.nodup_append.mp numbered.apart).2.1.sublist (filterMap_sublist _ _ _ Happening.arrived_serial)

theorem offered_arrivals (numbered : t.Numbered) (n : Nat) (badge : Badge) (d : Dispatch Action) (answer : Reply)
    (offered : .offered n badge d answer ∈ t.history) : n ∉ t.arrivals := by
  intro member
  obtain ⟨x, told, arrived⟩ := List.mem_filterMap.mp member
  cases offered_unique numbered n badge d answer x offered told (x.arrived_serial n arrived)
  cases arrived

end Custody

namespace Scene

/-- A retry makes one attempt to post the message that is live under its handle, whichever side the message came from
and however often it was posted; under every other handle it changes nothing. Until a slot's generations come round
again, a message is posted once for its arrival at most, and once for each retry that named it and that no callback made.
A nanoapp's message that no such retry named keeps its slot and its callback till it is completed. -/
theorem retry_reaches_live (size : Nat) (c : Scene) (moves : List Move) (bid : Option Bid) (h : Hub) (k : Handle)
    (opening : c.Opening size) (honest : ∀ m ∈ moves, m.Honest) (visits : c.Visits moves bid h) :
    (h.live? k = none → h.retry k = (false, h)) ∧
      (∀ parcel, h.live? k = some parcel → Hub.Retried k parcel h (h.retry k)) ∧
      ((h.history.filterMap Happening.took?).length + bid.toList.length < generations →
        (∀ n, (h.history.filterMap Happening.posted?).count n ≤ ((c.retried moves).map (·.serial)).count n + 1) ∧
        ∀ n badge d answer, .offered n badge d answer ∈ h.history →
          (h.history.filterMap Happening.posted?).count n ≤ ((c.retried moves).map (·.serial)).count n ∧
          ((∀ parcel ∈ c.retried moves, parcel.serial ≠ n) → h.relay.isSome → answer = .sent k →
            n ∉ h.history.filterMap Happening.completed? → ∃ woke, h.live? k = some ⟨d.message badge woke, d.free, n⟩)) := by
  refine ⟨h.retry_stale k, fun parcel => h.retry_retried k parcel, fun few => ?_⟩
  have deals := visits_deals c moves bid h honest visits
  have sound := Custody.deals_sound deals (opening_sound size c opening)
  rw [← h.custody_slots (c.run moves).hand (c.retried moves) bid] at few
  have tracked := Custody.deals_tracked deals (opening_sound size c opening) few (opening_tracked size c opening)
  have posts := Custody.owed_posts tracked.owed
  constructor
  · intro n
    have once := List.nodup_iff_count_le_one.mp (Custody.arrivals_once sound.numbered) n
    exact le_trans (posts n) (by rw [Nat.add_comm]; exact Nat.add_le_add_left once _)
  · intro n badge d answer offered
    have none := List.count_eq_zero.mpr (Custody.offered_arrivals sound.numbered n badge d answer offered)
    have bound := posts n
    rw [none, Nat.zero_add] at bound
    refine ⟨bound, fun unasked alive sent open' => ?_⟩
    rw [sent] at offered
    exact Hub.tracked_sent size h _ _ bid k sound tracked alive n badge d offered open' unasked

def requested : Dispatch Action := ⟨"a", [7], 1, ⟨1⟩, .none, some ⟨"f", []⟩, false, none⟩

def sending : List Move :=
  [.act (.load 0 1 .none .plain), .take 0, .finish 0, .act (.grab 0 1 (some "a")), .act (.send requested)]

def insisting : List Move := sending ++ [.act (.deliver ⟨1, 1, ⟨1⟩, [9]⟩ true), .act (.retry (.exact ⟨1, 1⟩))]

theorem insisting_posts :
    (small.run insisting).stack.hub.history.filterMap Happening.posted? = [1, 1] ∧
      ((small.run insisting).stack.hub.history.filterMap Happening.posted?).count 1 ≤ 1 + 1 ∧
      ((small.run insisting).stack.hub.history.filterMap Happening.posted?).count 0 ≤ 0 ∧
      (∃ woke, (small.run insisting).stack.hub.live? ⟨0, 1⟩ =
        some ⟨requested.message ⟨1, 1, .none, 0⟩ woke, requested.free, 0⟩) ∧
      (small.run insisting).stack.hub.retry ⟨2, 1⟩ = (false, (small.run insisting).stack.hub) := by
  have honest : ∀ m ∈ insisting, m.Honest := by simp [insisting, sending, Move.Honest, Action.Honest]
  have named : (small.retried insisting).map (·.serial) = [1] := rfl
  obtain ⟨-, -, bounds⟩ := retry_reaches_live 4 small insisting none _ ⟨0, 1⟩ small_opening honest .settled
  obtain ⟨posts, sent⟩ := bounds (by decide)
  obtain ⟨unposted, kept⟩ := sent 0 ⟨1, 1, .none, 0⟩ requested (.sent ⟨0, 1⟩)
    (List.mem_of_getElem? (show (small.run insisting).stack.hub.history[3]? = _ from rfl))
  rw [named] at unposted
  have other : ∀ parcel ∈ small.retried insisting, parcel.serial ≠ 0 := by
    intro parcel member same
    have listed := List.mem_map_of_mem (f := (·.serial)) member
    rw [named, same] at listed
    exact absurd listed (by decide)
  exact ⟨rfl, le_of_le_of_eq (posts 1) (by rw [named]; rfl), unposted, kept other rfl rfl (by decide),
    (retry_reaches_live 4 small insisting none _ ⟨2, 1⟩ small_opening honest .settled).1 rfl⟩

-- A retry that names the nanoapp's own message posts it back to the nanoapp, and its callback is never called.
theorem sending_reposted :
    small.Opening 4 ∧ (∀ m ∈ sending, m.Honest) ∧
      (∃ parcel, (small.run sending).stack.hub.live? ⟨0, 1⟩ = some parcel ∧ parcel.tenure = .sending parcel.message ∧
        parcel.callback = some ⟨"f", []⟩) ∧
      ((small.run sending).stack.hub.retry ⟨0, 1⟩).1 = true ∧
      (small.run (sending ++ [.act (.retry (.exact ⟨0, 1⟩))])).stack.hub.history.filterMap Happening.posted? = [0] ∧
      (small.run (sending ++ [.act (.retry (.exact ⟨0, 1⟩)), .take 0, .finish 0])).stack.hub.live? ⟨0, 1⟩ = none ∧
      (small.run (sending ++ [.act (.retry (.exact ⟨0, 1⟩)), .take 0, .finish 0])).stack.hub.history.filterMap
        Happening.freed? = [] := by
  refine ⟨small_opening, ?_, ⟨_, rfl, rfl, rfl⟩, rfl, rfl, rfl, rfl⟩
  simp [sending, Move.Honest, Action.Honest]

end Scene

end HubRelay
