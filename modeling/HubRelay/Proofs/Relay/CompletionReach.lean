import HubRelay.Proofs.Relay.Errands

/-! What a completion does under any handle, at any moment of a run. The relay does not ask which side the message in a
slot came from: a completion ends whatever is live there, and is only counted where nothing is. -/

set_option autoImplicit false

namespace HubRelay

namespace SlotPool

theorem vacate_retired {α : Type} (k : Handle) (p : SlotPool α) (a : α) (live : p.live? k = some a) :
    (p.put k .retiring).reclaimed k = p.vacate k := by
  have states := state_put p k _ .retiring ((live_state k a p).mp live)
  have vacated : (p.put k .retiring).vacate k = p.vacate k := by
    simp only [put, vacate, Array.setIfInBounds_setIfInBounds]
  simp only [reclaimed, release, states, vacated]

end SlotPool

namespace Hub

def live? (k : Handle) (h : Hub) : Option Parcel := h.relay.bind (·.pool.live? k)

def slot? (i : Nat) (h : Hub) : Option (Slot Parcel) := h.relay.bind (·.pool.slots[i]?)

def vacant (h : Hub) : List Nat := (h.relay.map (·.pool.free)).getD []

theorem live_relay (h : Hub) (r : Relay) (relay : h.relay = some r) (k : Handle) : h.live? k = r.pool.live? k := by
  rw [live?, relay, Option.bind_some]

theorem tally_relay (h : Hub) (r : Relay) (relay : h.relay = some r) : h.tally = r.tally := by
  rw [Hub.tally, relay, Option.map_some, Option.getD_some]

theorem live_custody (hand : List (Nat × Epilogue)) (asked : List Parcel) (bid : Option Bid) (k : Handle) (h : Hub) :
    (h.custody hand asked bid).live? k = h.live? k := by
  rw [Custody.live?, custody, live?]
  exact Option.bind_map

/-- How a completion ends a message: its payload is handed back on the loop of its sender, unless that loop takes no more
work, or nobody waits for it. Only in the first case the slot is kept till then. -/
inductive Ends (k : Handle) (parcel : Parcel) (h next : Hub) : Prop
  | released (silent : parcel.callback = none) (loops : next.loops = h.loops)
      (tally : next.tally = { h.tally with completions := h.tally.completions + 1 }) (vacant : next.vacant = k.slot :: h.vacant)
      (told : next.history = .completed parcel.serial .released :: h.history)
  | handed (callback : FreeCallback Action) (heard : parcel.callback = some callback) (l after : RunLoop)
      (place : h.loops[h.home parcel.message.app]? = some l)
      (queued : l.enqueue (.job (.handBack k parcel.serial callback parcel.message.payload)) = .ok after)
      (loops : next.loops = h.loops.set (h.home parcel.message.app) after)
      (tally : next.tally = { h.tally with completions := h.tally.completions + 1 }) (vacant : next.vacant = h.vacant)
      (told : next.history = .completed parcel.serial (.handed (h.home parcel.message.app)) :: h.history)
  | abandoned (callback : FreeCallback Action) (heard : parcel.callback = some callback)
      (closed : ∀ l, h.loops[h.home parcel.message.app]? = some l → l.Closed) (loops : next.loops = h.loops)
      (tally : next.tally =
        { h.tally with completions := h.tally.completions + 1, callbacksAbandoned := h.tally.callbacksAbandoned + 1 })
      (vacant : next.vacant = k.slot :: h.vacant)
      (told : next.history = .completed parcel.serial (.abandoned (h.home parcel.message.app)) :: h.history)

structure Finished (k : Handle) (parcel : Parcel) (h next : Hub) : Prop where
  gone : next.live? k = none
  others : ∀ i, i ≠ k.slot → next.slot? i = h.slot? i
  ends : Ends k parcel h next

section

variable {h next : Hub} {k : Handle} {r : Relay} {parcel : Parcel} {tally : RelayTally}

theorem slot_kept (relay : h.relay = some r) (lives : r.pool.live? k = some parcel)
    (relay' : next.relay = some { r with pool := r.pool.put k .retiring, tally := tally }) :
    next.live? k = none ∧ (∀ i, i ≠ k.slot → next.slot? i = h.slot? i) ∧ next.vacant = h.vacant ∧ next.tally = tally := by
  refine ⟨?_, fun i other => ?_, ?_, ?_⟩
  · rw [live_relay next _ relay', SlotPool.put_live r.pool k k parcel lives, if_pos rfl]
  · simp only [slot?, relay, relay', Option.bind_some]
    exact Array.getElem?_setIfInBounds_ne (Ne.symm other)
  · simp only [vacant, relay, relay', Option.map_some, Option.getD_some, SlotPool.put]
  · exact tally_relay next _ relay'

theorem slot_emptied (relay : h.relay = some r) (lives : r.pool.live? k = some parcel)
    (relay' : next.relay = some { r with pool := r.pool.vacate k, tally := tally }) :
    next.live? k = none ∧ (∀ i, i ≠ k.slot → next.slot? i = h.slot? i) ∧ next.vacant = k.slot :: h.vacant ∧
      next.tally = tally := by
  refine ⟨?_, fun i other => ?_, ?_, ?_⟩
  · rw [live_relay next _ relay', ← SlotPool.vacate_retired k r.pool parcel lives, SlotPool.reclaimed_live, if_pos rfl]
  · simp only [slot?, relay, relay', Option.bind_some]
    exact Array.getElem?_setIfInBounds_ne (Ne.symm other)
  · simp only [vacant, relay, relay', Option.map_some, Option.getD_some, SlotPool.vacate]
  · exact tally_relay next _ relay'

theorem reclaim_retired (lives : r.pool.live? k = some parcel)
    (retired : next.relay = some { r with pool := r.pool.put k .retiring, tally := tally }) :
    (next.reclaim k).relay = some { r with pool := r.pool.vacate k, tally := tally } ∧ (next.reclaim k).loops = next.loops ∧
      (next.reclaim k).history = next.history := by
  obtain ⟨journal, same⟩ := next.reclaim_cases k
  rw [same, retired, Option.map_some]
  refine ⟨?_, rfl, rfl⟩
  simp only [SlotPool.vacate_retired k r.pool parcel lives]

end

theorem complete_stale (k : Handle) (h : Hub) (stale : h.live? k = none) : h.complete k = h.count RelayTally.countDuplicate := by
  cases relay : h.relay with
  | none =>
      have alone : h.complete k = h := by rw [complete, relay]
      rw [alone, count, onRelay, relay, Option.map_none, ← relay]
  | some r =>
      rw [live_relay h r relay] at stale
      simp only [complete, relay, SlotPool.retire_stale k r.pool stale]

theorem complete_finished (k : Handle) (parcel : Parcel) (h : Hub) (live : h.live? k = some parcel) :
    Finished k parcel h (h.complete k) := by
  obtain ⟨r, relay, lives⟩ := Option.bind_eq_some_iff.mp live
  have counts := tally_relay h r relay
  have completed := complete_live h k r parcel relay lives
  cases heard : parcel.callback with
  | none =>
      simp only [heard] at completed
      obtain ⟨relay', loops, history⟩ := @reclaim_retired (h.retired k r) k r parcel _ lives rfl
      obtain ⟨gone, others, vacant, tally⟩ :=
        @slot_emptied h (((h.retired k r).reclaim k).record (.completed parcel.serial .released)) k r parcel _ relay lives relay'
      rw [completed]
      exact ⟨gone, others, .released heard loops (by rw [tally, counts]; rfl) vacant (congrArg _ history)⟩
  | some callback =>
      cases queued : (h.retired k r).enqueue (h.home parcel.message.app)
          (.job (.handBack k parcel.serial callback parcel.message.payload)) with
      | ok next =>
          simp only [heard, queued] at completed
          obtain ⟨l, after, place, taken, same⟩ := enqueue_cases _ next _ _ queued
          have relay' : next.relay = (h.retired k r).relay := by rw [same]
          obtain ⟨gone, others, vacant, tally⟩ :=
            @slot_kept h (next.record (.completed parcel.serial (.handed (h.home parcel.message.app)))) k r parcel _ relay lives relay'
          rw [completed]
          exact ⟨gone, others, .handed callback heard l after place taken (by rw [same]; rfl) (by rw [tally, counts]; rfl) vacant
            (by rw [same]; rfl)⟩
      | error failure =>
          simp only [heard, queued] at completed
          have closed : ∀ l, h.loops[h.home parcel.message.app]? = some l → l.Closed := by
            intro l place
            rcases enqueue_refused (h.retired k r) _ _ failure l queued place with closed | ⟨event, -⟩
            · exact closed
            · cases event
          obtain ⟨relay', loops, history⟩ := @reclaim_retired
            (((h.retired k r).note (.freeDropped callback.label)).count RelayTally.countAbandoned) k r parcel _ lives rfl
          obtain ⟨gone, others, vacant, tally⟩ := @slot_emptied h
            (((((h.retired k r).note (.freeDropped callback.label)).count RelayTally.countAbandoned).reclaim k).record
              (.completed parcel.serial (.abandoned (h.home parcel.message.app)))) k r parcel _ relay lives relay'
          rw [completed]
          exact ⟨gone, others, .abandoned callback heard closed loops (by rw [tally, counts]; rfl) vacant (congrArg _ history)⟩

/-- Where the message that is live in slot `k` comes from. One from the host also has work queued or under way, which
names the slot. -/
inductive Bears (hand : List (Nat × Epilogue)) (bid : Option Bid) (k : Handle) (parcel : Parcel) (h : Hub) : Prop
  | offering (badge : Badge) (d : Dispatch Action) (woke : Bool) (bids : bid = some ⟨badge, d, k⟩)
      (message : parcel.message = d.message badge woke) (free : parcel.callback = d.free)
  | outbound (badge : Badge) (d : Dispatch Action) (woke : Bool) (offered : .offered parcel.serial badge d (.sent k) ∈ h.history)
      (message : parcel.message = d.message badge woke) (free : parcel.callback = d.free)
  | inbound (a : Arrival) (routing : Routing) (arrived : .arrived parcel.serial a routing ∈ h.history) (admits : routing.Admits)
      (message : parcel.message = a.message) (silent : parcel.callback = none)
      (work : ∃ i x, (i, x) ∈ handErrands hand + gather RunLoop.errands h.loops ∧ x.holding.1 = k ∧
        x.arrival? = some parcel.serial)

theorem sound_bears (size : Nat) (h : Hub) (hand : List (Nat × Epilogue)) (asked : List Parcel) (bid : Option Bid) (k : Handle)
    (parcel : Parcel) (sound : (h.custody hand asked bid).Sound size) (served : (h.custody hand asked bid).Served)
    (live : h.live? k = some parcel) :
    h.Bears hand bid k parcel ∧ parcel.serial ∉ h.history.filterMap Happening.completed? := by
  have lives : (h.custody hand asked bid).live? k = some parcel := (live_custody hand asked bid k h).trans live
  refine ⟨?_, sound.lodged.ongoing k parcel lives⟩
  rcases sound.lodged.holds k parcel lives with (⟨badge, d, woke, offered, message, free⟩ | ⟨a, routing, arrived, admits, message, silent⟩) |
    ⟨badge, d, woke, bids, rfl⟩
  · exact .outbound badge d woke offered message free
  · have arriving : parcel.tenure = .arriving parcel.serial := by rw [Parcel.tenure, message]; rfl
    exact .inbound a routing arrived admits message silent (served k parcel _ lives arriving)
  · exact .offering badge d woke bids rfl rfl

theorem tracked_sent (size : Nat) (h : Hub) (hand : List (Nat × Epilogue)) (asked : List Parcel) (bid : Option Bid) (k : Handle)
    (sound : (h.custody hand asked bid).Sound size) (tracked : (h.custody hand asked bid).Tracked) (alive : h.relay.isSome)
    (n : Nat) (badge : Badge) (d : Dispatch Action) (offered : .offered n badge d (.sent k) ∈ h.history)
    (open' : n ∉ h.history.filterMap Happening.completed?) (unasked : ∀ parcel ∈ asked, parcel.serial ≠ n) :
    ∃ woke, h.live? k = some ⟨d.message badge woke, d.free, n⟩ := by
  obtain ⟨⟨message, callback, serial⟩, live, rfl⟩ :=
    tracked.kept.sent (by rw [custody]; simpa using alive) n badge d k offered open' unasked
  have same : ∀ x ∈ h.history, x.serial? = some serial → x = .offered serial badge d (.sent k) :=
    fun x member => Custody.offered_unique sound.numbered serial badge d (.sent k) x offered member
  rw [live_custody] at live
  rcases sound.lodged.holds k _ ((live_custody hand asked bid k h).trans live) with
    (⟨badge', d', woke, offered', message', free⟩ | ⟨a, routing, arrived, -⟩) | ⟨badge', d', woke, bids, own⟩
  · cases same _ offered' rfl
    refine ⟨woke, live.trans ?_⟩
    simp only at message' free
    rw [message', free]
  · cases same _ arrived rfl
  · have fresh := Custody.bidding_fresh sound.numbered _ bids _ offered
    exact absurd (congrArg (fun p : Parcel => some p.serial) own) fresh

end Hub

namespace Scene

/-- A completion finishes the message that is live under its handle, and only that, whichever side the message came
from. Under every other handle it only counts a duplicate. Until a slot's generations come round again, a message that
the link took is live until it is completed, unless a retry named it that no callback made. -/
theorem completion_reaches_live (size : Nat) (c : Scene) (moves : List Move) (bid : Option Bid) (h : Hub) (k : Handle)
    (opening : c.Opening size) (honest : ∀ m ∈ moves, m.Honest) (visits : c.Visits moves bid h) :
    (h.live? k = none → h.complete k = { h with relay := h.relay.map fun r =>
      { r with tally := { r.tally with duplicateCompletions := r.tally.duplicateCompletions + 1 } } }) ∧
      (∀ parcel, h.live? k = some parcel →
        Hub.Finished k parcel h (h.complete k) ∧ h.Bears (c.run moves).hand bid k parcel ∧
          parcel.serial ∉ h.history.filterMap Happening.completed?) ∧
      (h.relay.isSome → (h.history.filterMap Happening.took?).length + bid.toList.length < generations →
        ∀ n badge d, .offered n badge d (.sent k) ∈ h.history → n ∉ h.history.filterMap Happening.completed? →
          (∀ parcel ∈ c.retried moves, parcel.serial ≠ n) →
          ∃ woke, h.live? k = some ⟨d.message badge woke, d.free, n⟩) := by
  have deals := visits_deals c moves bid h honest visits
  have sound := Custody.deals_sound deals (opening_sound size c opening)
  refine ⟨h.complete_stale k, fun parcel live => ⟨h.complete_finished k parcel live, ?_⟩, ?_⟩
  · exact Hub.sound_bears size h _ _ bid k parcel sound
      (Custody.deals_served deals (opening_sound size c opening) (opening_served size c opening)) live
  · intro alive few n badge d offered open' unasked
    rw [← h.custody_slots (c.run moves).hand (c.retried moves) bid] at few
    have tracked := Custody.deals_tracked deals (opening_sound size c opening) few (opening_tracked size c opening)
    exact Hub.tracked_sent size h _ _ bid k sound tracked alive n badge d offered open' unasked

theorem small_opening : small.Opening 4 :=
  ⟨⟨⟨{ outstanding := 4 }, some (.uplink { settings := { duplicates := true } }), some {}, [{}], 1⟩, rfl, rfl⟩, rfl⟩

def second : Dispatch Action := ⟨"a", [8], 1, ⟨1⟩, .none, none, false, none⟩

theorem busy_reached :
    (∃ woke, (small.run busy).stack.hub.live? ⟨1, 1⟩ = some ⟨second.message ⟨1, 1, .none, 0⟩ woke, none, 1⟩) ∧
      (∃ parcel, (small.run busy).stack.hub.live? ⟨2, 1⟩ = some parcel ∧
        Hub.Finished ⟨2, 1⟩ parcel (small.run busy).stack.hub ((small.run busy).stack.hub.complete ⟨2, 1⟩)) ∧
      (small.run busy).stack.hub.complete ⟨0, 1⟩ = { (small.run busy).stack.hub with
        relay := (small.run busy).stack.hub.relay.map fun r =>
          { r with tally := { r.tally with duplicateCompletions := r.tally.duplicateCompletions + 1 } } } := by
  have honest : ∀ m ∈ busy, m.Honest := by simp [busy, Move.Honest, Action.Honest]
  have reaches := fun k => completion_reaches_live 4 small busy none _ k small_opening honest .settled
  have offered : .offered 1 ⟨1, 1, .none, 0⟩ second (.sent ⟨1, 1⟩) ∈ (small.run busy).stack.hub.history :=
    List.mem_of_getElem? (show (small.run busy).stack.hub.history[4]? = _ from rfl)
  refine ⟨?_, ?_, (reaches ⟨0, 1⟩).1 rfl⟩
  · exact (reaches ⟨1, 1⟩).2.2 rfl (by decide) 1 _ second offered (by decide) fun parcel asked => absurd asked List.not_mem_nil
  · exact ⟨_, rfl, ((reaches ⟨2, 1⟩).2.1 _ rfl).1⟩

def awaited : List Move :=
  [.act (.load 0 1 .none .plain), .take 0, .finish 0, .act (.deliver ⟨1, 1, ⟨1⟩, [9]⟩ true)]

-- The link names its handle, which is none of its own, and the relay takes that for a completion and frees the slot.
theorem awaited_completes :
    small.Opening 4 ∧ (∀ m ∈ awaited, m.Honest) ∧
      ∃ parcel, (small.run awaited).stack.hub.live? ⟨0, 1⟩ = some parcel ∧ parcel.tenure = .arriving 0 ∧
        (small.run awaited).stack.hub.vacant = [1, 2, 3] ∧
        ((small.run awaited).stack.hub.complete ⟨0, 1⟩).vacant = [0, 1, 2, 3] ∧
        ((small.run awaited).stack.hub.complete ⟨0, 1⟩).tally.completions = 1 ∧
        ((small.run awaited).stack.hub.complete ⟨0, 1⟩).tally.duplicateCompletions = 0 := by
  refine ⟨small_opening, ?_, _, rfl, rfl, rfl, rfl, rfl, rfl⟩
  simp [awaited, Move.Honest, Action.Honest]

end Scene

end HubRelay
