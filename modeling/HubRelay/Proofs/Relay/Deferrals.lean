import HubRelay.Proofs.Loop.Closing
import HubRelay.Proofs.Relay.Moments
import HubRelay.Proofs.Relay.Standing

/-! Messages that were put off: each waits for its retry, or was counted as delivered or as dropped, or else its retry
found the loop of its nanoapp closed or full. That last kind is counted nowhere. -/

set_option autoImplicit false

namespace HubRelay

def Routing.retries : Routing → Nat
  | .deferred => 1
  | .delivered | .rejected _ => 0

namespace Hub

theorem standing_attempt (h : Hub) (k : Handle) (parcel : Parcel) : (h.attempt k parcel).2.standing = h.standing := by
  rcases attempt_cases h k parcel with ⟨-, unknown⟩ | ⟨j, badge, -, ⟨next, queued, posted⟩ | ⟨failure, -, refused⟩⟩
  · rw [unknown]
  · rw [posted]
    exact standing_enqueue h next j _ queued
  · rw [refused]
    exact standing_reclaim h k

theorem standing_route (h : Hub) (a : Arrival) (r : Relay) (relay : h.relay = some r) :
    (h.route a r).2.standing = h.standing.wait (h.route a r).1.retries := by
  rcases route_cases h r a with ⟨failure, rejected⟩ | ⟨k, pool, -, routed⟩
  · rw [rejected]
    rfl
  · have lent : (h.lent pool r).standing = h.standing := standing_relay h r _ relay rfl
    have tried := standing_attempt (h.lent pool r) k ⟨a.message, none, r.serial⟩
    rw [lent] at tried
    rw [routed]
    split
    · next after attempted =>
        rw [attempted] at tried
        exact tried
    · next after attempted =>
        rw [attempted] at tried
        exact tried
    · next after attempted =>
        rw [attempted] at tried
        have same : after.standing = h.standing := tried
        unfold putOff
        split
        · next next queued => rw [standing_enqueue after next 0 _ queued, same]; rfl
        · exact (standing_reclaim after k).trans same

theorem standing_receive (h next : Hub) (a : Arrival) (routing : Routing) (received : h.receive a = some (routing, next)) :
    next.standing = (h.standing.wait routing.retries).counted routing.retries 0 0 := by
  obtain ⟨r, relay, -⟩ := Option.map_eq_some_iff.mp received
  simp only [receive, relay, Option.map_some, Option.some.injEq, Prod.mk.injEq] at received
  obtain ⟨rfl, rfl⟩ := received
  have routed := standing_route h a r relay
  have alive : (h.route a r).2.standing.alive = true := by
    rw [routed]
    simp only [Standing.wait, standing, relay, Option.isSome_some]
  have adds : RelayTally.Adds (h.route a r).1.retries 0 0 (RelayTally.countRouting (h.route a r).1) := by
    cases (h.route a r).1 <;> exact ⟨fun _ => rfl, fun _ => rfl, fun _ => rfl⟩
  rw [standing_passSerial]
  exact (standing_adds (h.route a r).2 _ _ 0 0 adds alive).trans (by rw [routed])

def lapses (k : Handle) (h : Hub) : Bool :=
  match h.relay.bind (·.pool.live? k) with
  | none => true
  | some parcel =>
      match (h.attempt k parcel).1 with
      | .refused => true
      | .posted | .unknown => false

def TurnsDown (k : Handle) (h : Hub) : Prop :=
  ∃ r parcel i badge l, h.relay = some r ∧ r.pool.live? k = some parcel ∧
    h.locate parcel.message.app = some (i, badge) ∧ h.loops[i]? = some l ∧ (l.Closed ∨ l.Full)

theorem lapses_cases (k : Handle) (h : Hub) (lapses : h.lapses k = true) :
    h.relay.bind (·.pool.live? k) = none ∨ h.TurnsDown k := by
  unfold Hub.lapses at lapses
  cases live : h.relay.bind (·.pool.live? k) with
  | none => exact .inl rfl
  | some parcel =>
      obtain ⟨r, relay, live'⟩ := Option.bind_eq_some_iff.mp live
      simp only [live] at lapses
      rcases attempt_cases h k parcel with
        ⟨-, unknown⟩ | ⟨i, badge, located, ⟨next, -, posted⟩ | ⟨failure, refused, -⟩⟩
      · simp [unknown] at lapses
      · simp [posted] at lapses
      · obtain ⟨-, l, place, -⟩ := locate_cases h _ i badge located
        exact .inr ⟨r, parcel, i, badge, l, relay, live', located, place,
          (enqueue_refused h i _ failure l refused place).imp id And.right⟩

theorem standing_retry (k : Handle) (h : Hub) :
    (h.lapses k = true ∧ (h.retry k).2.standing = h.standing) ∨
      (h.lapses k = false ∧
        ((h.retry k).2.standing = h.standing.counted 0 1 0 ∨ (h.retry k).2.standing = h.standing.counted 0 0 1)) := by
  unfold retry lapses
  cases live : h.relay.bind (·.pool.live? k) with
  | none => exact .inl ⟨rfl, rfl⟩
  | some parcel =>
      obtain ⟨r, relay, -⟩ := Option.bind_eq_some_iff.mp live
      have alive : h.standing.alive = true := by simp only [standing, relay, Option.isSome_some]
      have tried := standing_attempt h k parcel
      rcases attempt_cases h k parcel with
        ⟨-, attempted⟩ | ⟨i, badge, -, ⟨next, -, attempted⟩ | ⟨failure, -, attempted⟩⟩
      · refine .inr ⟨by simp only [attempted], .inr ?_⟩
        simp only [attempted]
        exact (standing_reclaim (h.count RelayTally.countUnknown) k).trans
          (standing_adds h RelayTally.countUnknown 0 0 1 ⟨fun _ => rfl, fun _ => rfl, fun _ => rfl⟩ alive)
      · rw [attempted] at tried
        have same : (next.record (.posted parcel.serial i badge)).standing = h.standing := tried
        refine .inr ⟨by simp only [attempted], .inl ?_⟩
        simp only [attempted]
        exact (standing_adds (next.record _) RelayTally.countDeferredDelivered 0 1 0
          ⟨fun _ => rfl, fun _ => rfl, fun _ => rfl⟩ (by rw [same]; exact alive)).trans
          (congrArg (·.counted 0 1 0) same)
      · rw [attempted] at tried
        refine .inl ⟨by simp only [attempted], ?_⟩
        simp only [attempted]
        exact tried

end Hub

-- Each message that was put off waits, was counted as delivered or as dropped, or is among those that lapsed.
def Standing.Accounts (lapsed : Nat) (s : Standing) : Prop :=
  s.deferred = s.deferredDelivered + s.unknownDestination + s.retries + lapsed

namespace Scene

def lapse (m : Move) (c : Scene) : List (Handle × Hub) :=
  match m with
  | .take i =>
      match c.stack.next? i with
      | some (.job (.retry k _), s) => if s.hub.lapses k then [(k, s.hub)] else []
      | _ => []
  | _ => []

def lapsed : List Move → Scene → List (Handle × Hub)
  | [], _ => []
  | m :: rest, c => c.lapse m ++ (c.move m).lapsed rest

theorem lapsed_found (moves : List Move) (c : Scene) (k : Handle) (h : Hub) (member : (k, h) ∈ c.lapsed moves) :
    ∃ before i n next after, moves = before ++ .take i :: after ∧
      (c.run before).stack.next? i = some (.job (.retry k n), next) ∧ next.hub = h ∧ h.lapses k = true := by
  induction moves generalizing c with
  | nil => cases member
  | cons m rest ih =>
      rcases List.mem_append.mp member with here | later
      · unfold lapse at here
        split at here
        · next i =>
            split at here
            · next k' n next taken =>
                split at here
                · next lapses =>
                    cases List.mem_singleton.mp here
                    exact ⟨[], i, n, next, rest, rfl, taken, rfl, lapses⟩
                · cases here
            · cases here
        · cases here
      · obtain ⟨before, i, n, next, after, rfl, found⟩ := ih (c.move m) later
        exact ⟨m :: before, i, n, next, after, rfl, found⟩

theorem lapse_cases (m : Move) (c : Scene) :
    (∃ k next, c.Retries m k next ∧ c.lapse m = if next.hub.lapses k then [(k, next.hub)] else []) ∨
      (∀ k next, ¬c.Retries m k next) ∧ c.lapse m = [] := by
  unfold lapse Retries
  cases m with
  | take i =>
      simp only
      split
      · next k n next taken => exact .inl ⟨k, next, ⟨i, n, rfl, taken⟩, rfl⟩
      · next idle =>
          refine .inr ⟨?_, rfl⟩
          rintro k next ⟨j, n, same, taken⟩
          cases same
          exact idle k n next taken
  | _ =>
      refine .inr ⟨?_, rfl⟩
      rintro k next ⟨j, n, same, -⟩
      cases same

theorem act_accounts (a : Action) (s : Stack) (lapsed : Nat) (unretried : ∀ r, a ≠ .retry r)
    (alive : s.hub.standing.alive = true) (accounts : s.hub.standing.Accounts lapsed) :
    (s.act a).2.hub.standing.alive = true ∧ (s.act a).2.hub.standing.Accounts lapsed := by
  by_cases apart : a.IsApart
  · rw [Stack.standing_act a s apart]
    exact ⟨alive, accounts⟩
  · cases a with
    | retry r => exact absurd rfl (unretried r)
    | deliver a viaLink =>
        simp only [Stack.act]
        split
        · next routing hub received =>
            rw [Hub.standing_receive s.hub hub a routing received]
            unfold Standing.Accounts at accounts ⊢
            simp only [Standing.wait, Standing.counted]
            exact ⟨alive, by omega⟩
        · exact ⟨alive, accounts⟩
    | stop i elsewhere =>
        simp only [Stack.act, Stack.ifLoop]
        split
        · exact ⟨alive, accounts⟩
        · next l place =>
            simp only [Stack.onHub]
            generalize (if elsewhere then none else some s.hub.thread) = caller
            rw [Hub.standing_stop s.hub i caller l place]
            split <;> exact ⟨alive, accounts⟩
    | _ => exact absurd trivial apart

theorem move_accounts (m : Move) (c : Scene) (lapsed : Nat) (kept : m ≠ .dropRelay) (unretried : ∀ r, m ≠ .act (.retry r))
    (alive : c.stack.hub.standing.alive = true) (accounts : c.stack.hub.standing.Accounts lapsed) :
    (c.move m).stack.hub.standing.alive = true ∧
      (c.move m).stack.hub.standing.Accounts (lapsed + (c.lapse m).length) := by
  rcases lapse_cases m c with ⟨k, next, retries, lapse⟩ | ⟨idle, lapse⟩
  · obtain ⟨moved, waited⟩ := move_retries m c k next retries
    rw [waited] at alive accounts
    rw [moved, lapse]
    unfold Standing.Accounts at accounts ⊢
    simp only [Standing.wait] at accounts
    rcases Hub.standing_retry k next.hub with ⟨lapses, same⟩ | ⟨counts, same | same⟩
    · rw [same, lapses]
      exact ⟨alive, by simp; omega⟩
    · rw [same, counts]
      exact ⟨alive, by simp [Standing.counted]; omega⟩
    · rw [same, counts]
      exact ⟨alive, by simp [Standing.counted]; omega⟩
  · rw [lapse]
    cases m with
    | act a => exact act_accounts a c.stack lapsed (fun r same => unretried r (same ▸ rfl)) alive accounts
    | _ =>
        rw [standing_move _ c kept (fun _ same => by cases same) idle]
        exact ⟨alive, accounts⟩

theorem run_accounts (moves : List Move) (c : Scene) (lapsed : Nat) (kept : .dropRelay ∉ moves)
    (unretried : ∀ r, .act (.retry r) ∉ moves) (alive : c.stack.hub.standing.alive = true)
    (accounts : c.stack.hub.standing.Accounts lapsed) :
    (c.run moves).stack.hub.standing.alive = true ∧
      (c.run moves).stack.hub.standing.Accounts (lapsed + (c.lapsed moves).length) := by
  induction moves generalizing c lapsed with
  | nil => exact ⟨alive, accounts⟩
  | cons m rest ih =>
      obtain ⟨alive', accounts'⟩ := move_accounts m c lapsed (fun same => kept (same ▸ List.mem_cons_self))
        (fun r same => unretried r (same ▸ List.mem_cons_self)) alive accounts
      have later := ih (c.move m) _ (fun member => kept (List.mem_cons_of_mem m member))
        (fun r member => unretried r (List.mem_cons_of_mem m member)) alive' accounts'
      rw [Scene.lapsed, List.length_append, ← Nat.add_assoc]
      exact later

theorem retry_held (link : LinkSettings) (c : Scene) (moves : List Move) (i n : Nat) (k : Handle) (next : Stack)
    (opens : c.Opens link) (lawful : ∀ m ∈ moves, m.Lawful) (kept : .dropRelay ∉ moves)
    (taken : (c.run moves).stack.next? i = some (.job (.retry k n), next)) :
    ∃ a routing, .arrived n a routing ∈ (c.run moves).stack.hub.history ∧
      next.hub.relay.bind (·.pool.live? k) = some ⟨a.message, none, n⟩ := by
  obtain ⟨linked, blank⟩ := opens_blank link c opens
  obtain ⟨-, sound⟩ := run_sound link c moves opens lawful
  have alive := run_alive moves c lawful kept linked (by obtain ⟨n, pool⟩ := blank.pool; rw [pool]; rfl)
  obtain ⟨p, pool⟩ := Option.isSome_iff_exists.mp alive
  have left := @Stack.next_traffic (c.run moves).hand _ next i _ id taken
  have work : (c.run moves).traffic.errands = (i, .retry k n) ::ₘ (next.traffic (c.run moves).hand).errands :=
    (congrArg Traffic.errands left).trans (Task.errands_cons i _ _ _ rfl)
  obtain ⟨parcel, live⟩ := Traffic.owned_retry _ p i n k _ sound.owned pool work
  obtain ⟨a, routing, arrived, -, message, callback, serial⟩ :=
    Traffic.parcel_arriving _ p i n k _ parcel sound pool work live
  have relay : next.hub.relay.map (·.pool) = some p := (congrArg Traffic.pool left).symm.trans pool
  obtain ⟨r, alive', rfl⟩ := Option.map_eq_some_iff.mp relay
  refine ⟨a, routing, arrived, ?_⟩
  rw [alive', Option.bind_some, live]
  cases parcel with
  | mk held heard number =>
      cases message
      cases callback
      cases serial
      rfl

theorem lapsed_turned (link : LinkSettings) (c : Scene) (moves : List Move) (k : Handle) (h : Hub) (opens : c.Opens link)
    (lawful : ∀ m ∈ moves, m.Lawful) (kept : .dropRelay ∉ moves) (member : (k, h) ∈ c.lapsed moves) : h.TurnsDown k := by
  obtain ⟨before, i, n, next, after, rfl, taken, rfl, lapses⟩ := lapsed_found moves c k h member
  obtain ⟨a, routing, -, live⟩ := retry_held link c before i n k next opens
    (fun m member => lawful m (List.mem_append_left _ member)) (fun member => kept (List.mem_append_left _ member)) taken
  refine (Hub.lapses_cases k next.hub lapses).resolve_left fun gone => ?_
  rw [live] at gone
  cases gone

/-- Of the messages that were put off, each waits for its retry, or was counted as delivered or as dropped when that ran,
or its retry found the loop of its nanoapp closed or full; or no message, if another than the link and its own loop gave
up its slot. -/
theorem deferred_accounted (c : Scene) (moves : List Move) (starts : c.Starts) (kept : .dropRelay ∉ moves)
    (unretried : ∀ r, .act (.retry r) ∉ moves) :
    ∃ r, (c.run moves).stack.hub.relay = some r ∧
      r.tally.deferred = r.tally.deferredDelivered + r.tally.unknownDestination + (c.run moves).stack.hub.retries +
        (c.lapsed moves).length ∧
      (∀ k h, (k, h) ∈ c.lapsed moves → h.relay.bind (·.pool.live? k) = none ∨ h.TurnsDown k) ∧
      ∀ link, c.Opens link → (∀ m ∈ moves, m.Lawful) → ∀ k h, (k, h) ∈ c.lapsed moves → h.TurnsDown k := by
  obtain ⟨b, built⟩ := starts.built
  obtain ⟨-, standing⟩ := b.build_standing c.stack built
  obtain ⟨alive, accounts⟩ := run_accounts moves c 0 kept unretried (by rw [standing]) (by rw [standing]; rfl)
  obtain ⟨r, relay⟩ := Option.isSome_iff_exists.mp alive
  refine ⟨r, relay, ?_, ?_, ?_⟩
  · simpa [Standing.Accounts, Hub.standing, Hub.tally, relay] using accounts
  · intro k h member
    obtain ⟨before, i, n, next, after, -, -, -, lapses⟩ := lapsed_found moves c k h member
    exact Hub.lapses_cases k h lapses
  · exact fun link opens lawful k h member => lapsed_turned link c moves k h opens lawful kept member

def narrow : Scene where
  stack :=
    { hub :=
        { loops := [{ settings := { eventCapacity := 1 } }], registered := 1,
          relay := some { settings := { outstanding := 4 }, pool := .ofCapacity 4 } }
      link := .uplink { settings := {} } }

theorem narrow_opens : narrow.Opens {} :=
  ⟨⟨⟨{ outstanding := 4 }, some (.uplink { settings := {} }), some {}, [{ eventCapacity := 1 }], 1⟩, rfl, rfl⟩, rfl⟩

def crowding : List Move :=
  [.act (.load 0 1 .none .plain), .act (.deliver ⟨1, 1, ⟨1⟩, [9]⟩ true), .act (.post 0 ⟨5, 0, 1, .empty, none⟩),
    .take 0, .finish 0, .take 0, .finish 0]

theorem crowding_accounted :
    ∃ r, (narrow.run crowding).stack.hub.relay = some r ∧
      r.tally.deferred = r.tally.deferredDelivered + r.tally.unknownDestination +
        (narrow.run crowding).stack.hub.retries + (narrow.lapsed crowding).length ∧
      (narrow.lapsed crowding).length = 1 := by
  obtain ⟨b, -, built⟩ := narrow_opens.built
  obtain ⟨r, relay, balance, -⟩ := deferred_accounted narrow crowding ⟨⟨b, built⟩, rfl⟩ (by simp [crowding])
    (by simp [crowding])
  exact ⟨r, relay, balance, rfl⟩

-- That retry is counted neither as delivered nor as dropped, and it waits no more.
theorem crowded_retry_uncounted :
    narrow.Starts ∧ (∀ m ∈ crowding, m.Lawful) ∧ .dropRelay ∉ crowding ∧
      ∃ r, (narrow.run crowding).stack.hub.relay = some r ∧
        r.tally.deferred ≠ r.tally.deferredDelivered + r.tally.unknownDestination +
          (narrow.run crowding).stack.hub.retries := by
  obtain ⟨b, -, built⟩ := narrow_opens.built
  exact ⟨⟨⟨b, built⟩, rfl⟩, by simp [crowding, Move.Lawful, Action.Lawful], by simp [crowding], _, rfl, by decide⟩

end Scene

end HubRelay
