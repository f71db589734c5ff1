import HubRelay.Proofs.Pool.Calls
import HubRelay.Proofs.Relay.HandBacks
import HubRelay.Proofs.Relay.Offers
import HubRelay.Proofs.Relay.Tallies
import HubRelay.Proofs.Relay.WakeCycles

/-! Sending, to the letter: when a message is accepted and what stands in its way otherwise, and all that changes in
either case. -/

set_option autoImplicit false

namespace HubRelay

def Permissions.Include (granted needed : Permissions) : Prop :=
  ∀ i, needed.bits.toNat.testBit i = true → granted.bits.toNat.testBit i = true

theorem Permissions.covers_iff (granted needed : Permissions) : granted.covers needed = true ↔ granted.Include needed := by
  rw [covers, beq_iff_eq, ← UInt32.toNat_inj, UInt32.toNat_and, Include]
  constructor
  · intro same i bit
    rw [← same, Nat.testBit_and, Bool.and_eq_true] at bit
    exact bit.1
  · intro within
    refine Nat.eq_of_testBit_eq fun i => ?_
    rw [Nat.testBit_and]
    cases bit : needed.bits.toNat.testBit i with
    | false => rw [Bool.and_false]
    | true => rw [within i bit, Bool.and_true]

namespace SlotPool

variable {α : Type}

def HasVacant (p : SlotPool α) : Prop := ∃ (i : Nat) (generation : UInt32), p.slots[i]? = some ⟨generation, .vacant⟩

theorem vacant_allocates (a : α) (p : SlotPool α) (sound : p.Sound) (vacant : p.HasVacant) :
    ∃ k next, p.allocate a = some (k, next) := by
  obtain ⟨i, generation, place⟩ := vacant
  have listed := (p.mem_free sound i).mpr ⟨_, place, rfl⟩
  obtain ⟨slots, free⟩ := p
  cases free with
  | nil => exact absurd listed List.not_mem_nil
  | cons first free => exact ⟨_, _, rfl⟩

theorem full_refuses (a : α) (p : SlotPool α) (sound : p.Sound) (full : ¬p.HasVacant) : p.allocate a = none := by
  have listed := p.mem_free sound
  obtain ⟨slots, free⟩ := p
  cases free with
  | nil => rfl
  | cons i free =>
      obtain ⟨⟨generation, state⟩, place, rfl⟩ := (listed i).mp List.mem_cons_self
      exact absurd ⟨i, generation, place⟩ full

structure Lends (k : Handle) (a : α) (p next : SlotPool α) : Prop where
  slot : ∃ generation, p.slots[k.slot]? = some ⟨generation, .vacant⟩ ∧ k.generation = generation + 1
  free : p.free = k.slot :: next.free
  occupied : next.occupied = (k, some a) ::ₘ p.occupied
  others : ∀ i, i ≠ k.slot → next.slots[i]? = p.slots[i]?

theorem allocate_lends (a : α) (p next : SlotPool α) (k : Handle) (sound : p.Sound)
    (allocated : p.allocate a = some (k, next)) : Lends k a p next := by
  obtain ⟨generation, place, bumped, slots, free⟩ := allocate_place a p next k sound allocated
  refine ⟨⟨generation, place, bumped⟩, free, (allocate_cases a p next k sound allocated).2, fun i other => ?_⟩
  rw [slots, Array.getElem?_setIfInBounds_ne (Ne.symm other)]

/-- The slot to be handed out next passed a generation by. Nothing else is different. -/
structure Renewed (p next : SlotPool α) : Prop where
  slot : ∃ i generation, p.free.head? = some i ∧ p.slots[i]? = some ⟨generation, .vacant⟩ ∧
    next.slots = p.slots.setIfInBounds i ⟨generation + 1, .vacant⟩
  free : next.free = p.free
  occupied : next.occupied = p.occupied

theorem allocate_renewed (a : α) (p next : SlotPool α) (k : Handle) (sound : p.Sound)
    (allocated : p.allocate a = some (k, next)) : p.Renewed (next.reclaimed k) := by
  obtain ⟨generation, place, bumped, slots, free⟩ := allocate_place a p next k sound allocated
  obtain ⟨-, occupied⟩ := allocate_cases a p next k sound allocated
  have member : (k, some a) ∈ next.occupied := by rw [occupied]; exact Multiset.mem_cons_self _ _
  have given := reclaimed_member k next (some a) member
  refine ⟨⟨k.slot, generation, by rw [free, List.head?_cons], place, ?_⟩, ?_, (allocate_reclaimed a p next k sound allocated).2⟩
  · rw [given, vacate, slots, bumped, Array.setIfInBounds_setIfInBounds]
  · rw [given, vacate, free]

end SlotPool

namespace Uplink

def HasRoom (u : Uplink) : Prop := u.shutDown = false ∧ u.queue.length < u.settings.capacity

def countRejected (u : Uplink) : Uplink := { u with tally := { u.tally with rejected := u.tally.rejected + 1 } }

def taking (m : Outgoing) (u : Uplink) : Uplink :=
  { u with
    queue := u.queue.push m
    tally := { u.tally with accepted := u.tally.accepted + 1 } }

theorem send_taken (m : Outgoing) (u : Uplink) (room : u.HasRoom) : u.send m = (true, u.taking m) := by
  obtain ⟨running, below⟩ := room
  simp only [send, running, Bool.false_or, decide_eq_true_eq, if_neg (Nat.not_le.mpr below), taking]

theorem send_turned (m : Outgoing) (u : Uplink) (full : ¬u.HasRoom) : u.send m = (false, u.countRejected) := by
  unfold send
  split
  · rfl
  · next room =>
      simp only [Bool.or_eq_true, decide_eq_true_eq, not_or, Bool.not_eq_true, not_le] at room
      exact absurd room full

end Uplink

/-- Of all the counters, only the one that tells why a message was turned down is one higher. -/
inductive RelayTally.Turns (t : RelayTally) : SendFailure → RelayTally → Prop
  | tooLarge (size limit : Nat) : Turns t (.tooLarge size limit) { t with rejectedTooLarge := t.rejectedTooLarge + 1 }
  | permissions (message app : Permissions) :
      Turns t (.permissions message app) { t with rejectedPermissions := t.rejectedPermissions + 1 }
  | poolExhausted : Turns t .poolExhausted { t with rejectedPoolExhausted := t.rejectedPoolExhausted + 1 }
  | refused : Turns t .refused { t with rejectedByLink := t.rejectedByLink + 1 }

theorem RelayTally.countRejection_turns (failure : SendFailure) (t : RelayTally) : t.Turns failure (t.countRejection failure) := by
  cases failure with
  | tooLarge size limit => exact .tooLarge size limit
  | permissions message app => exact .permissions message app
  | poolExhausted => exact .poolExhausted
  | refused => exact .refused

namespace Hub

theorem reclaim_lent (h : Hub) (k : Handle) (pool : SlotPool Parcel) (r : Relay) (parcel : Parcel)
    (live : pool.live? k = some parcel) :
    (h.lent pool r).reclaim k = { h.noteDropped parcel.callback with relay := some { r with pool := pool.reclaimed k } } := by
  have released := SlotPool.release_member k pool _ ((SlotPool.mem_occupied_live? k parcel pool).mpr live)
  have given := SlotPool.reclaimed_member k pool _ ((SlotPool.mem_occupied_live? k parcel pool).mpr live)
  simp only [reclaim, lent, released, given, Option.bind_some]
  cases parcel.callback <;> rfl

end Hub

namespace Stack

variable (badge : Badge) (d : Dispatch Action) (r : Relay) (u : Uplink)

structure Sendable : Prop where
  fits : d.payload.length ≤ r.settings.messageLimit
  permitted : badge.permissions.Include d.permissions
  vacant : r.pool.HasVacant
  room : u.HasRoom

/-- What stands in the way of the message, and nothing before it. -/
inductive Bars : SendFailure → Prop
  | size (long : ¬d.payload.length ≤ r.settings.messageLimit) :
      Bars (.tooLarge d.payload.length r.settings.messageLimit)
  | permissions (fits : d.payload.length ≤ r.settings.messageLimit)
      (beyond : ¬badge.permissions.Include d.permissions) :
      Bars (.permissions d.permissions badge.permissions)
  | pool (fits : d.payload.length ≤ r.settings.messageLimit)
      (permitted : badge.permissions.Include d.permissions)
      (full : ¬r.pool.HasVacant) : Bars .poolExhausted
  | link (fits : d.payload.length ≤ r.settings.messageLimit)
      (permitted : badge.permissions.Include d.permissions)
      (vacant : r.pool.HasVacant) (full : ¬u.HasRoom) : Bars .refused

variable {badge d r u}

theorem bars_apart (failure : SendFailure) (bars : Bars badge d r u failure) : ¬Sendable badge d r u := by
  intro sendable
  cases bars with
  | size long => exact long sendable.fits
  | permissions fits beyond => exact beyond sendable.permitted
  | pool fits permitted full => exact full sendable.vacant
  | link fits permitted vacant full => exact full sendable.room

theorem bars_one (failure other : SendFailure) (bars : Bars badge d r u failure) (bars' : Bars badge d r u other) :
    failure = other := by
  cases bars with
  | size long =>
      cases bars' with
      | size => rfl
      | permissions fits | pool fits | link fits => exact absurd fits long
  | permissions fits beyond =>
      cases bars' with
      | permissions => rfl
      | size long => exact absurd fits long
      | pool _ permitted | link _ permitted => exact absurd permitted beyond
  | pool fits permitted full =>
      cases bars' with
      | pool => rfl
      | size long => exact absurd fits long
      | permissions _ beyond => exact absurd permitted beyond
      | link _ _ vacant => exact absurd vacant full
  | link fits permitted vacant full =>
      cases bars' with
      | link => rfl
      | size long => exact absurd fits long
      | permissions _ beyond => exact absurd permitted beyond
      | pool _ _ full => exact absurd vacant full

-- The message was turned down: its callback is dropped, and the link counts the failure if it was the link's.
def turnedDown (d : Dispatch Action) (r : Relay) (u : Uplink) (failure : SendFailure) (pool : SlotPool Parcel) (tally : RelayTally)
    (s : Stack) : Stack :=
  { s with
    hub := { s.hub.noteDropped d.free with relay := some { r with pool := pool, tally := tally } }
    link := .uplink (if failure = .refused then u.countRejected else u) }

-- The message waits in the link and holds the slot of `k`. Its sender answers for it, and for the wake cycle if it opens one.
def sending (badge : Badge) (d : Dispatch Action) (r : Relay) (u : Uplink) (k : Handle) (pool : SlotPool Parcel) (s : Stack) : Stack :=
  let woke := !s.power.awake
  let ledger := s.hub.ledger.update badge.entry Usage.countSent
  { s with
    hub := { s.hub with
      relay := some { r with
        pool := pool
        wakeClaim := if woke then ⟨true⟩ else r.wakeClaim
        tally := { r.tally with accepted := r.tally.accepted + 1 } }
      ledger := if woke && !r.wakeClaim.taken then ledger.update badge.entry Usage.countWakeup else ledger }
    link := .uplink (u.taking ⟨k, d.message badge woke⟩) }

theorem reject_turned (s : Stack) (failure : SendFailure) (early : failure ≠ .refused) (relay : s.hub.relay = some r)
    (link : s.link = .uplink u) :
    (s.onHub (·.noteDropped d.free)).reject failure d.payload = (.rejected failure d.payload, s.turnedDown d r u failure r.pool (r.tally.countRejection failure)) := by
  obtain ⟨journal, noted⟩ := s.hub.noteDropped_cases d.free
  simp only [reject, onHub, Hub.count, Hub.onRelay, turnedDown, noted, relay, Option.map_some, if_neg early, ← link]

theorem offer_taken (m : Outgoing) (s : Stack) (link : s.link = .uplink u) (room : u.HasRoom) :
    s.offer m = (true, s.setUplink (u.taking m)) := by
  simp only [offer, link, u.send_taken m room]

theorem offer_turned (m : Outgoing) (s : Stack) (link : s.link = .uplink u) (full : ¬u.HasRoom) :
    s.offer m = (false, s.setUplink u.countRejected) := by
  simp only [offer, link, u.send_turned m full]

theorem sendAs_barred (s : Stack) (failure : SendFailure) (relay : s.hub.relay = some r) (link : s.link = .uplink u)
    (sound : r.pool.Sound) (bars : Bars badge d r u failure) :
    ∃ pool, s.sendAs badge d r = (.rejected failure d.payload, s.turnedDown d r u failure pool (r.tally.countRejection failure)) ∧
      if failure = .refused then r.pool.Renewed pool else pool = r.pool := by
  have early : failure ≠ .refused → s.sendAs badge d r = (s.onHub (·.noteDropped d.free)).reject failure d.payload →
      ∃ pool, s.sendAs badge d r = (.rejected failure d.payload, s.turnedDown d r u failure pool (r.tally.countRejection failure)) ∧
        if failure = .refused then r.pool.Renewed pool else pool = r.pool :=
    fun early answer => ⟨r.pool, answer.trans (reject_turned s failure early relay link), by rw [if_neg early]⟩
  cases bars with
  | size long =>
      refine early (by simp) ?_
      simp only [sendAs, Nat.not_le.mp long, if_true]
  | permissions fits beyond =>
      refine early (by simp) ?_
      have uncovered : badge.permissions.covers d.permissions = false := by
        rw [← Bool.not_eq_true, Permissions.covers_iff]
        exact beyond
      simp only [sendAs, Nat.not_lt.mpr fits, if_false, uncovered, Bool.not_false, if_true]
  | pool fits permitted full =>
      refine early (by simp) ?_
      have none := r.pool.full_refuses ⟨d.message badge (!s.power.awake), d.free, r.serial⟩ sound full
      simp only [sendAs, Nat.not_lt.mpr fits, if_false, (Permissions.covers_iff _ _).mpr permitted, Bool.not_true,
        Bool.false_eq_true, none]
  | link fits permitted vacant full =>
      obtain ⟨k, pool, allocated⟩ := r.pool.vacant_allocates ⟨d.message badge (!s.power.awake), d.free, r.serial⟩ sound vacant
      have refused := offer_turned ⟨k, d.message badge (!s.power.awake)⟩ (s.onHub (·.lent pool r)) link full
      have live := (SlotPool.allocated_live _ r.pool pool k k sound allocated).2
      rw [if_pos rfl] at live
      refine ⟨pool.reclaimed k, ?_, by rw [if_pos rfl]; exact r.pool.allocate_renewed _ pool k sound allocated⟩
      rw [sendAs_refused badge d r s _ k pool fits ((Permissions.covers_iff _ _).mpr permitted) allocated refused]
      have returned : ((s.onHub (·.lent pool r)).setUplink u.countRejected).returned k = d.payload := by
        simp only [returned, setUplink, onHub, Hub.lent, Option.bind_some, live, Option.map_some, Option.getD_some]
        rfl
      have given := s.hub.reclaim_lent k pool r _ live
      rw [returned]
      simp only [reject, onHub, setUplink, given, Hub.count, Hub.onRelay, Option.map_some, turnedDown, if_true]

theorem credit_sending (s : Stack) (k : Handle) (pool : SlotPool Parcel) :
    ((s.onHub (·.lent pool r)).setUplink (u.taking ⟨k, d.message badge (!s.power.awake)⟩)).credit badge (!s.power.awake) =
      s.sending badge d r u k pool := by
  simp only [credit, sending, setUplink, onHub, Hub.lent, WakeClaim.claim, RelayTally.countAccepted]
  cases s.power.awake <;> simp

theorem sendAs_sendable (s : Stack) (link : s.link = .uplink u) (sound : r.pool.Sound) (sendable : Sendable badge d r u) :
    ∃ k pool, r.pool.allocate ⟨d.message badge (!s.power.awake), d.free, r.serial⟩ = some (k, pool) ∧
      s.sendAs badge d r = (.sent k, s.sending badge d r u k pool) := by
  obtain ⟨fits, permitted, vacant, room⟩ := sendable
  obtain ⟨k, pool, allocated⟩ := r.pool.vacant_allocates ⟨d.message badge (!s.power.awake), d.free, r.serial⟩ sound vacant
  have offered : (s.onHub fun h => { h with relay := some { r with pool := pool } }).offer
      ⟨k, d.message badge (!s.power.awake)⟩ = _ := offer_taken _ (s.onHub (·.lent pool r)) link room
  refine ⟨k, pool, allocated, ?_⟩
  simp only [sendAs, Nat.not_lt.mpr fits, if_false, (Permissions.covers_iff _ _).mpr permitted, Bool.not_true,
    Bool.false_eq_true, allocated, offered]
  exact congrArg (Prod.mk (Reply.sent k)) (credit_sending s k pool)

theorem sendAs_ruled (s : Stack) (relay : s.hub.relay = some r) (link : s.link = .uplink u) (sound : r.pool.Sound) :
    (Sendable badge d r u ∧ ∃ k pool, r.pool.allocate ⟨d.message badge (!s.power.awake), d.free, r.serial⟩ = some (k, pool) ∧
        s.sendAs badge d r = (.sent k, s.sending badge d r u k pool)) ∨
      ∃ failure pool, Bars badge d r u failure ∧
        s.sendAs badge d r = (.rejected failure d.payload, s.turnedDown d r u failure pool (r.tally.countRejection failure)) ∧
        if failure = .refused then r.pool.Renewed pool else pool = r.pool := by
  have barred : ∀ failure, Bars badge d r u failure → ∃ failure pool, Bars badge d r u failure ∧
      s.sendAs badge d r = (.rejected failure d.payload, s.turnedDown d r u failure pool (r.tally.countRejection failure)) ∧
      if failure = .refused then r.pool.Renewed pool else pool = r.pool := by
    intro failure bars
    obtain ⟨pool, answer, kept⟩ := sendAs_barred s failure relay link sound bars
    exact ⟨failure, pool, bars, answer, kept⟩
  by_cases fits : d.payload.length ≤ r.settings.messageLimit
  · by_cases permitted : badge.permissions.Include d.permissions
    · by_cases vacant : r.pool.HasVacant
      · by_cases room : u.HasRoom
        · exact .inl ⟨⟨fits, permitted, vacant, room⟩, sendAs_sendable s link sound ⟨fits, permitted, vacant, room⟩⟩
        · exact .inr (barred _ (.link fits permitted vacant room))
      · exact .inr (barred _ (.pool fits permitted vacant))
    · exact .inr (barred _ (.permissions fits permitted))
  · exact .inr (barred _ (.size fits))

theorem sent_iff (s : Stack) (relay : s.hub.relay = some r) (link : s.link = .uplink u) (sound : r.pool.Sound) :
    (∃ k next, s.sendAs badge d r = (.sent k, next)) ↔ Sendable badge d r u := by
  rcases sendAs_ruled s relay link sound with ⟨sendable, k, pool, -, answer⟩ | ⟨failure, pool, bars, answer, -⟩
  · exact ⟨fun _ => sendable, fun _ => ⟨k, _, answer⟩⟩
  · refine ⟨fun ⟨k, next, sent⟩ => ?_, fun sendable => absurd sendable (bars_apart failure bars)⟩
    rw [answer] at sent
    cases sent

theorem rejected_iff (s : Stack) (relay : s.hub.relay = some r) (link : s.link = .uplink u) (sound : r.pool.Sound)
    (failure : SendFailure) :
    (∃ payload next, s.sendAs badge d r = (.rejected failure payload, next)) ↔ Bars badge d r u failure := by
  rcases sendAs_ruled s relay link sound with ⟨sendable, k, pool, -, answer⟩ | ⟨first, pool, bars, answer, -⟩
  · refine ⟨fun ⟨payload, next, rejected⟩ => ?_, fun bars => absurd sendable (bars_apart failure bars)⟩
    rw [answer] at rejected
    cases rejected
  · constructor
    · rintro ⟨payload, next, rejected⟩
      rw [answer] at rejected
      cases rejected
      exact bars
    · intro other
      obtain rfl := bars_one first failure bars other
      exact ⟨d.payload, _, answer⟩

variable (badge d r u)

structure Sent (k : Handle) (s next : Stack) : Prop where
  exact : ∃ pool, next = s.sending badge d r u k pool ∧ SlotPool.Lends k ⟨⟨badge.app, d.payload,
    .toHost ⟨d.kind, badge.permissions, d.permissions, d.endpoint, !s.power.awake⟩⟩, d.free, r.serial⟩ r.pool pool
  queue : ∃ u', next.link = .uplink u' ∧ u'.queue.toList = u.queue.toList ++ [⟨k, badge.app, d.payload,
    .toHost ⟨d.kind, badge.permissions, d.permissions, d.endpoint, !s.power.awake⟩⟩]
  usage : ∀ entry, next.hub.ledger.usage entry = if entry = badge.entry
    then ⟨(s.hub.ledger.usage entry).sent + 1,
      (s.hub.ledger.usage entry).wakeups + if !s.power.awake && !r.wakeClaim.taken then 1 else 0⟩
    else s.hub.ledger.usage entry

variable {badge d r u}

theorem usage_sending (s : Stack) (k : Handle) (pool : SlotPool Parcel) (entry : Nat) :
    (s.sending badge d r u k pool).hub.ledger.usage entry = if entry = badge.entry
      then ⟨(s.hub.ledger.usage entry).sent + 1,
        (s.hub.ledger.usage entry).wakeups + if !s.power.awake && !r.wakeClaim.taken then 1 else 0⟩
      else s.hub.ledger.usage entry := by
  simp only [sending]
  cases !s.power.awake && !r.wakeClaim.taken with
  | true =>
      simp only [if_true, Ledger.usage_update]
      split <;> rfl
  | false =>
      simp only [Bool.false_eq_true, if_false, Ledger.usage_update]
      split <;> rfl

theorem sent_effect (s next : Stack) (k : Handle) (relay : s.hub.relay = some r) (link : s.link = .uplink u)
    (sound : r.pool.Sound) (answer : s.sendAs badge d r = (.sent k, next)) : Sent badge d r u k s next := by
  rcases sendAs_ruled s relay link sound with ⟨sendable, k', pool, allocated, sent⟩ | ⟨failure, pool, -, rejected, -⟩
  · cases answer.symm.trans sent
    exact ⟨⟨pool, rfl, r.pool.allocate_lends _ pool k sound allocated⟩, ⟨_, rfl, Fifo.toList_push _ _⟩, usage_sending s k pool⟩
  · cases answer.symm.trans rejected

theorem sent_checked (s next : Stack) (k : Handle) (answer : s.sendAs badge d r = (.sent k, next)) :
    d.payload.length ≤ r.settings.messageLimit ∧ badge.permissions.Include d.permissions := by
  simp only [sendAs] at answer
  split at answer
  · cases answer
  · next fits =>
      split at answer
      · cases answer
      · next permitted =>
          refine ⟨Nat.not_lt.mp fits, (Permissions.covers_iff _ _).mp ?_⟩
          simpa using permitted

theorem accepts_checked (s : Stack) (accepted : s.accepts d = some badge) :
    ∃ r, s.hub.relay = some r ∧ d.payload.length ≤ r.settings.messageLimit ∧ badge.permissions.Include d.permissions := by
  unfold accepts at accepted
  split at accepted
  · next accepts =>
      cases relay : s.hub.relay with
      | none => simp only [send, relay, Reply.accepts, Bool.false_eq_true] at accepts
      | some r =>
          rw [(send_named badge d r s relay accepted).1] at accepts
          rcases sendAs_answer badge d r s with ⟨k, sent⟩ | ⟨failure, payload, rejected⟩
          · exact ⟨r, rfl, sent_checked s (s.sendAs badge d r).2 k (Prod.ext sent rfl)⟩
          · rw [rejected] at accepts
            cases accepts
  · cases accepted

end Stack

namespace Scene

def Passed (limit : Nat) (incidents : List Incident) (c : Scene) (m : Outgoing) : Prop :=
  ∃ before d later badge, incidents = before ++ .move (.act (.send d)) :: later ∧
    (c.undergo before).stack.accepts d = some badge ∧
    m.message = ⟨badge.app, d.payload,
      .toHost ⟨d.kind, badge.permissions, d.permissions, d.endpoint, !(c.undergo before).stack.power.awake⟩⟩ ∧
    d.payload.length ≤ limit ∧ badge.permissions.Include d.permissions

theorem Passed.append {limit : Nat} {incidents : List Incident} {c : Scene} {m : Outgoing} (passed : c.Passed limit incidents m)
    (more : List Incident) : c.Passed limit (incidents ++ more) m := by
  obtain ⟨before, d, later, badge, split, rest⟩ := passed
  exact ⟨before, d, later ++ more, badge, by rw [split, List.append_assoc, List.cons_append], rest⟩

theorem undergo_settings (size : Nat) (c : Scene) (opening : c.Opening size) (r r' : Relay) (relay : c.stack.hub.relay = some r)
    (incidents : List Incident) (honest : ∀ x ∈ incidents, x.Honest)
    (relay' : (c.undergo incidents).stack.hub.relay = some r') : r'.settings = r.settings := by
  rcases (undergo_keeps size c opening incidents honest).settings with same | gone
  · simpa only [Hub.bearings, relay, relay', Option.map_some, Option.some.injEq] using same
  · simp only [Hub.bearings, relay', Option.map_some, reduceCtorEq] at gone

theorem undergo_only (size : Nat) (c : Scene) (r : Relay) (opening : c.Opening size) (relay : c.stack.hub.relay = some r)
    (fresh : c.stack.link.Only fun _ => False) (incidents : List Incident) (honest : ∀ x ∈ incidents, x.Honest) :
    (c.undergo incidents).stack.link.Only (c.Passed r.settings.messageLimit incidents) := by
  have mono : ∀ (P Q : Outgoing → Prop) (link : Link), link.Only P → (∀ m, P m → Q m) → link.Only Q := by
    intro P Q link only within
    cases link with
    | uplink u => exact Uplink.Only.mono only within
    | puppet p => trivial
  induction incidents using List.reverseRecOn with
  | nil => exact mono _ _ _ fresh fun m held => held.elim
  | append_singleton before x ih =>
      obtain ⟨earlier, -⟩ := List.forall_mem_append.mp honest
      have held := mono _ _ _ (ih earlier) fun m passed => passed.append [x]
      rw [undergo_append]
      cases x with
      | dropLoop i => exact held
      | move m =>
          refine only_move _ m (c.undergo before) held ?_
          rintro d badge k rfl accepted -
          obtain ⟨r', relay', fits, permitted⟩ := Stack.accepts_checked _ accepted
          have settings := undergo_settings size c opening r r' relay before earlier relay'
          exact ⟨before, d, [], badge, rfl, accepted, rfl, settings ▸ fits, permitted⟩

/-- A message is sent under exactly these conditions, and refused for the first that fails. What is sent waits last in the
link and holds a slot that was vacant, and its sender answers for it; nothing else changes. So nothing is ever in the link or
delivered that was larger than the relay's limit, or that its sender might not send. -/
theorem send_exact (link : LinkSettings) (c : Scene) (incidents : List Incident) (r₀ : Relay) (opens : c.Opens link)
    (first : c.stack.hub.relay = some r₀) (honest : ∀ x ∈ incidents, x.Honest) :
    (∀ s u r badge d, s.hub = (c.undergo incidents).stack.hub → s.link = .uplink u → s.hub.relay = some r →
      r.settings = r₀.settings ∧
      ((∃ k next, s.sendAs badge d r = (.sent k, next)) ↔ Stack.Sendable badge d r u) ∧
      (∀ failure, (∃ payload next, s.sendAs badge d r = (.rejected failure payload, next)) ↔ Stack.Bars badge d r u failure) ∧
      ∀ k next, s.sendAs badge d r = (.sent k, next) → Stack.Sent badge d r u k s next) ∧
    ∀ u, (c.undergo incidents).stack.link = .uplink u →
      (∀ m ∈ u.queue.toList, c.Passed r₀.settings.messageLimit incidents m) ∧
        ∀ x ∈ u.received, ∃ m, c.Passed r₀.settings.messageLimit incidents m ∧ m.delivery? = some x := by
  obtain ⟨-, linked, -⟩ := opens_cases link c opens
  obtain ⟨⟨b, -, built⟩, idle⟩ := opens
  have opening : c.Opening b.settings.outstanding := ⟨⟨b, rfl, built⟩, idle⟩
  constructor
  · intro s u r badge d same wired relay
    have reached : (c.undergo incidents).stack.hub.relay = some r := same ▸ relay
    have sound := undergo_pool _ incidents c opening honest r reached
    exact ⟨undergo_settings _ c opening r₀ r first incidents honest reached, Stack.sent_iff s relay wired sound,
      Stack.rejected_iff s relay wired sound, fun k next answer => Stack.sent_effect s next k relay wired sound answer⟩
  · intro u wired
    have fresh : c.stack.link.Only fun _ => False := by
      rw [linked]
      exact ⟨fun m member => (nomatch member), fun x member => (nomatch member)⟩
    have only := undergo_only _ c r₀ opening first fresh incidents honest
    rw [wired] at only
    exact only

def murmur (permissions : Permissions) : Dispatch Action := ⟨"a", [7], 1, ⟨1⟩, permissions, some ⟨"f", []⟩, false, none⟩

def murmuring : List Incident :=
  [.act (.enrol "a" 1 1 .audio), .act .suspend, .act (.send (murmur .audio)), .act (.uplink (.pump 1)),
    .act (.send (murmur .audio))].map .move

theorem murmuring_exact :
    dozing.Opens { capacity := 3 } ∧ (∀ x ∈ murmuring, x.Honest) ∧
      (∃ r u k next, (dozing.undergo murmuring).stack.hub.relay = some r ∧ (dozing.undergo murmuring).stack.link = .uplink u ∧
        (dozing.undergo murmuring).stack.sendAs ⟨1, 1, .audio, 0⟩ (murmur .audio) r = (.sent k, next) ∧
        Stack.Sent ⟨1, 1, .audio, 0⟩ (murmur .audio) r u k (dozing.undergo murmuring).stack next) ∧
      (∃ r payload next, (dozing.undergo murmuring).stack.hub.relay = some r ∧
        (dozing.undergo murmuring).stack.sendAs ⟨1, 1, .audio, 0⟩ (murmur .gnss) r =
          (.rejected (.permissions .gnss .audio) payload, next)) ∧
      ∃ u, (dozing.undergo murmuring).stack.link = .uplink u ∧ u.queue.length = 1 ∧ u.received.length = 1 ∧
        ∀ x ∈ u.received, ∃ m, dozing.Passed 4096 murmuring m ∧ m.delivery? = some x := by
  have opens : dozing.Opens { capacity := 3 } :=
    ⟨⟨⟨{ outstanding := 8 }, some (.uplink { settings := { capacity := 3 } }), some { awake := true, listener := some () },
      [{}], 1⟩, rfl, rfl⟩, rfl⟩
  have honest : ∀ x ∈ murmuring, x.Honest := by simp [murmuring, Incident.Honest, Move.Honest, Action.Honest]
  obtain ⟨exact', passed⟩ := send_exact { capacity := 3 } dozing murmuring _ opens rfl honest
  refine ⟨opens, honest, ?_, ?_, _, rfl, rfl, rfl, (passed _ rfl).2⟩
  · obtain ⟨-, sent, -, effect⟩ := exact' (dozing.undergo murmuring).stack _ _ ⟨1, 1, .audio, 0⟩ (murmur .audio) rfl rfl rfl
    obtain ⟨k, next, answer⟩ := sent.mpr
      ⟨by decide, (Permissions.covers_iff _ _).mp (by decide), ⟨2, 0, rfl⟩, rfl, by decide⟩
    exact ⟨_, _, k, next, rfl, rfl, answer, effect k next answer⟩
  · obtain ⟨-, -, rejected, -⟩ := exact' (dozing.undergo murmuring).stack _ _ ⟨1, 1, .audio, 0⟩ (murmur .gnss) rfl rfl rfl
    obtain ⟨payload, next, answer⟩ := (rejected (.permissions .gnss .audio)).mpr
      (.permissions (by decide) fun included => absurd ((Permissions.covers_iff _ _).mpr included) (by decide))
    exact ⟨_, payload, next, rfl, answer⟩

end Scene

end HubRelay
