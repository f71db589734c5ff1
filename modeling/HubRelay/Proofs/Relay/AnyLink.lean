import HubRelay.Proofs.Relay.Integrity

/-! A link may complete whatever it likes, as often as it likes and at any time, also while it is being offered a
message that it then refuses. The relay's records stay sound. -/

set_option autoImplicit false

namespace HubRelay

/-- What the relay keeps to, while `pending` of the slots it gave out are for a message that the link is being offered. -/
structure Hub.Safe (size pending : Nat) (h : Hub) : Prop where
  pool : ∀ r, h.relay = some r → r.pool.Consistent size
  apart : (h.history.filterMap Happening.serial?).Nodup
  once : (h.history.filterMap Happening.freed?).Nodup
  own : ∀ n callback payload, .freed n callback payload ∈ h.history →
    ∃ badge d answer, .offered n badge d answer ∈ h.history ∧ d.free = some callback ∧ payload = d.payload
  completions : ∀ r, h.relay = some r → r.tally.completions ≤ (h.history.filterMap Happening.took?).length + pending
  -- The slots themselves count how often they were given out, until a generation comes round again.
  counted : ∀ r, h.relay = some r → (h.history.filterMap Happening.took?).length + pending < generations →
    r.pool.allotted = (h.history.filterMap Happening.took?).length + pending

structure SlotPool.Yields {α : Type} (k : Handle) (p next : SlotPool α) : Prop where
  others : ∀ i, i ≠ k.slot → next.slots[i]? = p.slots[i]?
  free : next.free = p.free ∨ next.free = k.slot :: p.free

theorem SlotPool.reclaimed_yields {α : Type} (k : Handle) (p : SlotPool α) : p.Yields k (p.reclaimed k) := by
  have vacated : p.Yields k (p.vacate k) :=
    ⟨fun i other => Array.getElem?_setIfInBounds_ne (Ne.symm other), .inr rfl⟩
  unfold reclaimed release
  split
  · next next released =>
      split at released <;> cases released <;> exact vacated
  · exact ⟨fun _ _ => rfl, .inl rfl⟩

namespace Stack

-- What a sender gets back is what is left in the slot: nothing, if the link completed the message.
def returned (k : Handle) (s : Stack) : Payload :=
  ((s.hub.relay.bind (·.pool.live? k)).map (·.message.payload)).getD []

theorem withdraw_returned (k : Handle) (s : Stack) : (s.withdraw k).1 = s.returned k := by
  unfold withdraw returned
  split
  · next parcel live => rw [live]; rfl
  · next none => rw [none]; rfl

structure Refused (k : Handle) (d : Dispatch Action) (after : Stack) (outcome : Reply × Stack) : Prop where
  answer : outcome.1 = if d.brief then .flag false else .rejected .refused (after.returned k)
  slots : ∃ r next, after.hub.relay = some r ∧ outcome.2.hub.relay = some next ∧ r.pool.Yields k next.pool
  loops : outcome.2.hub.loops = after.hub.loops
  completions : outcome.2.hub.tally.completions = after.hub.tally.completions

theorem sendAs_refused (badge : Badge) (d : Dispatch Action) (r : Relay) (s after : Stack) (k : Handle) (pool : SlotPool Parcel)
    (fits : d.payload.length ≤ r.settings.messageLimit) (permitted : badge.permissions.covers d.permissions = true)
    (allocated : r.pool.allocate ⟨d.message badge (!s.power.awake), d.free, r.serial⟩ = some (k, pool))
    (refused : (s.onHub (·.lent pool r)).offer ⟨k, d.message badge (!s.power.awake)⟩ = (false, after)) :
    s.sendAs badge d r = (after.onHub (·.reclaim k)).reject .refused (after.returned k) := by
  have offered : (s.onHub fun h => { h with relay := some { r with pool := pool } }).offer
      ⟨k, d.message badge (!s.power.awake)⟩ = (false, after) := refused
  simp only [sendAs, Nat.not_lt.mpr fits, permitted, if_false, Bool.not_true, Bool.false_eq_true, allocated, offered]
  rw [withdraw_cases, withdraw_returned]

theorem send_refused (badge : Badge) (d : Dispatch Action) (r : Relay) (s after : Stack) (k : Handle) (pool : SlotPool Parcel)
    (relay : s.hub.relay = some r) (named : s.names.lookup d.sender = some badge)
    (fits : d.payload.length ≤ r.settings.messageLimit) (permitted : badge.permissions.covers d.permissions = true)
    (allocated : r.pool.allocate ⟨d.message badge (!s.power.awake), d.free, r.serial⟩ = some (k, pool))
    (refused : (s.onHub (·.lent pool r)).offer ⟨k, d.message badge (!s.power.awake)⟩ = (false, after)) :
    Refused k d after (s.send d) := by
  have answered := sendAs_refused badge d r s after k pool fits permitted allocated refused
  obtain ⟨-, numbered⟩ := @offer_deals [] [] none ⟨k, d.message badge (!s.power.awake)⟩ (s.onHub (·.lent pool r))
  rw [refused] at numbered
  obtain ⟨r', relay', -⟩ := Option.map_eq_some_iff.mp numbered
  simp only at relay'
  obtain ⟨journal, reclaimed⟩ := after.hub.reclaim_cases k
  have sent : s.send d = (if d.brief then .flag false else .rejected .refused (after.returned k),
      ((after.onHub (·.reclaim k)).reject .refused (after.returned k)).2.onHub fun h =>
        (h.record (.offered r.serial badge d (.rejected .refused (after.returned k)))).passSerial) := by
    simp only [send, relay, named, answered]
    rfl
  have emptied : (after.hub.reclaim k).relay = some { r' with pool := r'.pool.reclaimed k } := by
    rw [reclaimed]
    simp only [relay', Option.map_some]
  have final : (s.send d).2.hub.relay = some { r' with
      pool := r'.pool.reclaimed k
      tally := RelayTally.countRejection .refused r'.tally
      serial := r'.serial + 1 } := by
    simp only [sent, reject, onHub, Hub.record, Hub.passSerial, Hub.count, Hub.onRelay, emptied, Option.map_some]
  refine ⟨?_, ⟨r', _, relay', final, SlotPool.reclaimed_yields k r'.pool⟩, ?_, ?_⟩
  · rw [sent]
  · have kept : (after.hub.reclaim k).loops = after.hub.loops := by rw [reclaimed]
    rw [sent]
    exact kept
  · simp only [Hub.tally, final, relay', Option.map_some, Option.getD_some, RelayTally.countRejection]

end Stack

structure Scene.Opening (size : Nat) (c : Scene) : Prop where
  built : ∃ b : Blueprint, b.settings.outstanding = size ∧ b.build = .ok c.stack
  idle : c.hand = []

namespace Scene

theorem opening_cases (size : Nat) (c : Scene) (opening : c.Opening size) :
    c.hand = [] ∧ c.stack.hub.history = [] ∧ (∃ settings, c.stack.hub.relay = some ⟨settings, .ofCapacity size, {}, {}, 0⟩) ∧
      ∀ l ∈ c.stack.hub.loops, ∃ settings, l = { settings := settings } := by
  obtain ⟨⟨b, rfl, built⟩, idle⟩ := opening
  obtain ⟨s, hand⟩ := c
  unfold Blueprint.build at built
  split at built
  · cases built
  · cases built
  · split at built
    · cases built
    · split at built
      · cases built
      · next pool created =>
          unfold SlotPool.create at created
          split at created
          · cases created
            cases built
            refine ⟨idle, rfl, ⟨b.settings, rfl⟩, fun l member => ?_⟩
            obtain ⟨settings, -, rfl⟩ := List.mem_map.mp member
            exact ⟨settings, rfl⟩
          · cases created

theorem opening_custody (size : Nat) (c : Scene) (opening : c.Opening size) :
    c.custody [] = ⟨some (.ofCapacity size), 0, 0, 0, [], [], none⟩ := by
  obtain ⟨hand, history, ⟨settings, relay⟩, loops⟩ := opening_cases size c opening
  have errands : gather RunLoop.errands c.stack.hub.loops = 0 := by
    refine gather_none _ _ fun i l place => ?_
    obtain ⟨settings, rfl⟩ := loops l (List.mem_of_getElem? place)
    rfl
  simp only [custody, Hub.custody, Hub.tally, hand, history, relay, errands]
  rfl

theorem opening_vacant (size : Nat) (c : Scene) (opening : c.Opening size) (k : Handle) (parcel : Parcel) :
    (c.custody []).live? k ≠ some parcel := by
  intro live
  rw [opening_custody size c opening] at live
  have member := (SlotPool.mem_occupied_live? k parcel (.ofCapacity size)).mpr live
  rw [SlotPool.occupied_ofCapacity] at member
  exact Multiset.notMem_zero _ member

theorem opening_sound (size : Nat) (c : Scene) (opening : c.Opening size) : (c.custody []).Sound size := by
  have vacant := opening_vacant size c opening
  rw [opening_custody size c opening] at vacant ⊢
  refine ⟨?_, ⟨?_, ?_⟩, ?_, ⟨?_, ?_, ?_, ?_, ?_, ?_⟩, ⟨rfl, ?_, ?_⟩⟩
  · intro p alive
    cases alive
    exact ⟨SlotPool.sound_ofCapacity size, Array.size_replicate⟩
  · exact fun _ n member => absurd member List.not_mem_nil
  · exact List.nodup_nil
  · intro _ p alive
    cases alive
    have idle : ∀ n, total ((List.replicate n (⟨0, .vacant⟩ : Slot Parcel)).map (·.generation.toNat)) = 0 := by
      intro n
      induction n with
      | zero => rfl
      | succ n ih => exact (Nat.zero_add _).trans ih
    simp only [SlotPool.allotted, SlotPool.ofCapacity, Array.toList_replicate]
    exact idle size
  · exact fun k parcel live => absurd live (vacant k parcel)
  · exact fun k k' parcel parcel' live => absurd live (vacant k parcel)
  · exact fun k parcel live => absurd live (vacant k parcel)
  · exact List.nodup_nil
  · exact fun n member => absurd member List.not_mem_nil
  · exact le_rfl
  · exact fun x member => absurd member (Multiset.notMem_zero x)
  · exact fun x member => absurd member List.not_mem_nil

theorem run_custody_deals (c : Scene) (moves : List Move) (honest : ∀ m ∈ moves, m.Honest) :
    Deals (c.custody []) ((c.run moves).custody (c.retried moves)) := by
  have deals := run_deals moves c [] honest
  rw [List.append_nil] at deals
  exact deals

end Scene

namespace Hub

theorem custody_slots (h : Hub) (hand : List (Nat × Epilogue)) (asked : List Parcel) (bid : Option Bid) :
    (h.custody hand asked bid).taken.length = (h.history.filterMap Happening.took?).length + bid.toList.length := by
  rw [Custody.taken, List.length_append, Nat.add_comm]
  cases bid <;> rfl

theorem sound_safe (size : Nat) (h : Hub) (hand : List (Nat × Epilogue)) (asked : List Parcel) (bid : Option Bid)
    (sound : (h.custody hand asked bid).Sound size) : h.Safe size bid.toList.length := by
  have slots := h.custody_slots hand asked bid
  constructor
  · intro r relay
    obtain ⟨pooled, capacity⟩ := sound.housed r.pool (custody_pool h r relay).1
    rw [← capacity]
    exact r.pool.sound_consistent pooled
  · exact (List.nodup_append.mp sound.numbered.apart).2.1
  · exact Custody.freed_once sound
  · intro n callback payload member
    exact sound.answered.called (n, callback, payload) (List.mem_filterMap.mpr ⟨_, member, rfl⟩)
  · intro r relay
    have most := Custody.completions_taken sound
    rw [slots] at most
    have counts : (h.custody hand asked bid).completions = r.tally.completions := by
      simp only [custody, tally, relay, Option.map_some, Option.getD_some]
    rw [← counts]
    exact most
  · intro r relay few
    rw [← slots] at few ⊢
    exact sound.tallied few r.pool (custody_pool h r relay).1

end Hub

namespace Scene

/-- A moment of a run: after its last move, or while the link is being offered another message and completes what it
likes. -/
inductive Visits (moves : List Move) (c : Scene) : Option Bid → Hub → Prop
  | settled : Visits moves c none (c.run moves).stack.hub
  | offering (r : Relay) (badge : Badge) (d : Dispatch Action) (woke : Bool) (k : Handle) (pool : SlotPool Parcel)
      (handles : List Handle) (relay : (c.run moves).stack.hub.relay = some r)
      (allocated : r.pool.allocate ⟨d.message badge woke, d.free, r.serial⟩ = some (k, pool)) :
      Visits moves c (some ⟨badge, d, k⟩) (handles.foldl (fun h k => h.complete k) ((c.run moves).stack.hub.lent pool r))

theorem visits_deals (c : Scene) (moves : List Move) (bid : Option Bid) (h : Hub) (honest : ∀ m ∈ moves, m.Honest)
    (visits : c.Visits moves bid h) : Deals (c.custody []) (h.custody (c.run moves).hand (c.retried moves) bid) := by
  have deals := run_custody_deals c moves honest
  cases visits with
  | settled => exact deals
  | offering r badge d woke k pool handles relay allocated =>
      have lent := @Hub.lent_deal (c.run moves).hand (c.retried moves) badge d woke k pool r (c.run moves).stack.hub relay allocated
      exact (deals.tail lent).trans (Hub.completions_deals handles _)

/-- Whatever is completed, in whatever order and under whatever handles, the relay stays safe: after every call, and
also at every moment while the link is being offered a message. A message that the link refuses goes back to its
sender, completed or not, and at most its own slot is given back. -/
theorem safe_on_any_link (size : Nat) (c : Scene) (moves : List Move) (opening : c.Opening size)
    (honest : ∀ m ∈ moves, m.Honest) :
    (∀ bid h, c.Visits moves bid h → h.Safe size bid.toList.length) ∧
      ∀ r badge d k pool after, (c.run moves).stack.hub.relay = some r →
        (c.run moves).stack.names.lookup d.sender = some badge → d.payload.length ≤ r.settings.messageLimit →
        badge.permissions.covers d.permissions = true →
        r.pool.allocate ⟨d.message badge (!(c.run moves).stack.power.awake), d.free, r.serial⟩ = some (k, pool) →
        ((c.run moves).stack.onHub (·.lent pool r)).offer ⟨k, d.message badge (!(c.run moves).stack.power.awake)⟩ = (false, after) →
        Stack.Refused k d after ((c.run moves).stack.send d) := by
  constructor
  · intro bid h visits
    have deals := visits_deals c moves bid h honest visits
    exact Hub.sound_safe size h _ _ bid (Custody.deals_sound deals (opening_sound size c opening))
  · intro r badge d k pool after relay named fits permitted allocated refused
    exact Stack.send_refused badge d r _ after k pool relay named fits permitted allocated refused

def fickle : Scene where
  stack :=
    { hub :=
        { loops := [{ settings := {} }], registered := 1,
          relay := some { settings := { outstanding := 2 }, pool := .ofCapacity 2 } }
      link := .puppet { reaction := ⟨[.offered, .offered, .exact ⟨1, 7⟩], true, false⟩ } }

theorem fickle_opening : fickle.Opening 2 :=
  ⟨⟨⟨{ outstanding := 2 }, some fickle.stack.link, some {}, [{}], 1⟩, rfl, rfl⟩, rfl⟩

def spurned : Dispatch Action := ⟨"a", [7], 1, ⟨1⟩, .none, some ⟨"f", []⟩, false, none⟩

def spurning : List Move :=
  [.act (.enrol "a" 1 1 .none), .act (.send spurned), .take 0, .finish 0, .act (.complete (.exact ⟨0, 1⟩))]

theorem spurning_safe :
    (fickle.run spurning).stack.hub.Safe 2 0 ∧
      (fickle.run spurning).stack.hub.history.filterMap Happening.freed? = [0] ∧
      ((fickle.run spurning).stack.hub.relay.map fun r => (r.tally.completions, r.pool.free)) = some (1, [0, 1]) ∧
      ((fickle.run spurning).stack.send spurned).1 = .rejected .refused [] := by
  have honest : ∀ m ∈ spurning, m.Honest := by simp [spurning, Move.Honest, Action.Honest]
  obtain ⟨safe, refusals⟩ := safe_on_any_link 2 fickle spurning fickle_opening honest
  refine ⟨safe none _ .settled, by decide, by decide, ?_⟩
  exact (refusals _ ⟨1, 1, .none, 0⟩ spurned _ _ _ rfl rfl (by decide) (by decide) rfl rfl).answer

end Scene

end HubRelay
