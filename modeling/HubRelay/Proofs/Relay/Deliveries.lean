import HubRelay.Proofs.Relay.Completions

/-! Messages from the host: their arrival, and the retry of those put off. -/

set_option autoImplicit false

namespace HubRelay

variable {waiting : Multiset Outgoing} {hand : List (Nat × Epilogue)}

theorem Task.errands_cons (i : Nat) (t : Task) (x : Errand) (s : Multiset (Nat × Errand)) (bears : t.errand? = some x) :
    t.errands i + s = (i, x) ::ₘ s := by
  rw [errands, bears]
  rfl

theorem Task.errands_none (i : Nat) (t : Task) (s : Multiset (Nat × Errand)) (plain : t.errand? = none) :
    t.errands i + s = s := by
  rw [errands, plain]
  simp

theorem Parcel.event_errands (i : Nat) (k : Handle) (inst : InstanceId) (p : Parcel) (s : Multiset (Nat × Errand)) :
    (Task.event (p.event k inst)).errands i + s = (i, .event k p.serial (p.event k inst)) ::ₘ s :=
  Task.errands_cons i (.event (p.event k inst)) _ s rfl

namespace Hub

theorem locate_cases (h : Hub) (app : AppId) (i : Nat) (badge : Badge) (located : h.locate app = some (i, badge)) :
    badge.app = app ∧ ∃ l, h.loops[i]? = some l ∧ badge ∈ l.roster := by
  obtain ⟨⟨l, j⟩, member, found⟩ := List.exists_of_findSome?_eq_some located
  simp only [Option.map_eq_some_iff, Prod.mk.injEq] at found
  obtain ⟨b, listed, rfl, rfl⟩ := found
  have place := List.mem_zipIdx_iff_getElem?.mp member
  refine ⟨by simpa using List.find?_some listed, l, ?_, List.mem_of_find?_eq_some listed⟩
  rw [List.getElem?_take] at place
  split at place
  · exact place
  · cases place

theorem located_known (waiting : Multiset Outgoing) (hand : List (Nat × Epilogue)) (h : Hub) (app : AppId) (i : Nat)
    (badge : Badge) (located : h.locate app = some (i, badge)) :
    (h.traffic waiting hand).known i badge := by
  obtain ⟨-, l, place, listed⟩ := locate_cases h app i badge located
  exact .inr ⟨l, place, .inl listed⟩

theorem attempt_cases (h : Hub) (k : Handle) (parcel : Parcel) :
    h.locate parcel.message.app = none ∧ h.attempt k parcel = (.unknown, h) ∨
      ∃ i badge, h.locate parcel.message.app = some (i, badge) ∧
        ((∃ next, h.enqueue i (.event (parcel.event k badge.inst)) = .ok next ∧
            h.attempt k parcel = (.posted, next.record (.posted parcel.serial i badge))) ∨
          ∃ failure, h.enqueue i (.event (parcel.event k badge.inst)) = .error failure ∧
            h.attempt k parcel = (.refused, h.reclaim k)) := by
  unfold attempt
  cases located : h.locate parcel.message.app with
  | none => exact .inl ⟨rfl, rfl⟩
  | some place =>
      obtain ⟨i, badge⟩ := place
      refine .inr ⟨i, badge, rfl, ?_⟩
      simp only
      cases h.enqueue i (.event (parcel.event k badge.inst)) with
      | ok next => exact .inl ⟨next, rfl, rfl⟩
      | error failure => exact .inr ⟨failure, rfl, rfl⟩

def lent (pool : SlotPool Parcel) (r : Relay) (h : Hub) : Hub := { h with relay := some { r with pool := pool } }

theorem traffic_lent (waiting : Multiset Outgoing) (hand : List (Nat × Epilogue)) (h : Hub) (pool : SlotPool Parcel) (r : Relay)
    (relay : h.relay = some r) :
    (h.lent pool r).traffic waiting hand = { h.traffic waiting hand with pool := some pool } := by
  simp only [lent, traffic, relay]
  rfl

theorem traffic_passSerial (waiting : Multiset Outgoing) (hand : List (Nat × Epilogue)) (h : Hub) (r : Relay)
    (relay : h.relay = some r) :
    h.passSerial.traffic waiting hand =
      { h.traffic waiting hand with serial := (h.traffic waiting hand).serial + 1 } := by
  simp only [passSerial, onRelay, traffic, relay]
  rfl

theorem relay_count (h : Hub) (f : RelayTally → RelayTally) (alive : h.relay.isSome) :
    ∃ r, (h.count f).relay = some r := by
  obtain ⟨r, relay⟩ := Option.isSome_iff_exists.mp alive
  exact ⟨{ r with tally := f r.tally }, by simp only [count, onRelay, relay, Option.map_some]⟩

theorem abandoned_countRouting (routing : Routing) (t : RelayTally) :
    (t.countRouting routing).callbacksAbandoned = t.callbacksAbandoned := by
  cases routing <;> rfl

theorem traffic_arrived (h : Hub) (serial : Nat) (a : Arrival) (routing : Routing) (alive : h.relay.isSome) :
    (((h.count (RelayTally.countRouting routing)).record (.arrived serial a routing)).passSerial).traffic waiting hand =
      { h.traffic waiting hand with
        serial := (h.traffic waiting hand).serial + 1
        history := .arrived serial a routing :: (h.traffic waiting hand).history } := by
  obtain ⟨r, relay⟩ := relay_count h (RelayTally.countRouting routing) alive
  rw [traffic_passSerial waiting hand ((h.count _).record _) r relay, traffic_record,
    traffic_count h _ (abandoned_countRouting routing)]

theorem alive_reclaim (h : Hub) (k : Handle) (alive : h.relay.isSome) : (h.reclaim k).relay.isSome := by
  obtain ⟨journal, reclaimed⟩ := h.reclaim_cases k
  rw [reclaimed]
  simpa using alive

theorem alive_enqueue (h next : Hub) (i : Nat) (t : Task) (queued : h.enqueue i t = .ok next) : next.relay = h.relay := by
  obtain ⟨l, after, place, taken, rfl⟩ := enqueue_cases h next i t queued
  rfl

theorem route_early (h : Hub) (r : Relay) (a : Arrival) :
    (∃ failure, failure ≠ .unavailable ∧ h.route a r = (.rejected failure, h)) ∨
      ∃ k pool, r.pool.allocate ⟨a.message, none, r.serial⟩ = some (k, pool) ∧
        h.route a r =
          match (h.lent pool r).attempt k ⟨a.message, none, r.serial⟩ with
          | (.posted, h) => (.delivered, h)
          | (.refused, h) => (.rejected .unavailable, h)
          | (.unknown, h) => h.putOff k r.serial := by
  unfold route
  split
  · exact .inl ⟨.broadcastSource, by simp, rfl⟩
  · split
    · exact .inl ⟨.tooLarge _, by simp, rfl⟩
    · simp only
      split
      · exact .inl ⟨.poolExhausted, by simp, rfl⟩
      · next k pool allocated => exact .inr ⟨k, pool, allocated, rfl⟩

theorem route_cases (h : Hub) (r : Relay) (a : Arrival) :
    (∃ failure, h.route a r = (.rejected failure, h)) ∨
      ∃ k pool, r.pool.allocate ⟨a.message, none, r.serial⟩ = some (k, pool) ∧
        h.route a r =
          match (h.lent pool r).attempt k ⟨a.message, none, r.serial⟩ with
          | (.posted, h) => (.delivered, h)
          | (.refused, h) => (.rejected .unavailable, h)
          | (.unknown, h) => h.putOff k r.serial := by
  rcases route_early h r a with ⟨failure, -, routed⟩ | taken
  · exact .inl ⟨failure, routed⟩
  · exact .inr taken

theorem route_follows (waiting : Multiset Outgoing) (hand : List (Nat × Epilogue)) (h : Hub) (r : Relay) (a : Arrival)
    (relay : h.relay = some r) :
    (h.route a r).2.relay.isSome ∧
      Follows h (h.traffic waiting hand)
        { (h.route a r).2.traffic waiting hand with
          serial := ((h.route a r).2.traffic waiting hand).serial + 1
          history := .arrived r.serial a (h.route a r).1 :: ((h.route a r).2.traffic waiting hand).history } := by
  have alive : (h.traffic waiting hand).pool = some r.pool := by simp only [traffic, relay, Option.map_some]
  have serial : (h.traffic waiting hand).serial = r.serial := by
    simp only [traffic, relay, Option.map_some, Option.getD_some]
  rcases route_cases h r a with ⟨failure, routed⟩ | ⟨k, pool, allocated, routed⟩
  · rw [routed, ← serial]
    exact ⟨by rw [relay]; rfl, .single (.turnDown a failure (by rw [alive]; rfl))⟩
  · have borrowed := traffic_lent waiting hand h pool r relay
    rw [← serial] at allocated
    have bounced : Follows h (h.traffic waiting hand) { h.traffic waiting hand with
        pool := some (pool.reclaimed k)
        serial := (h.traffic waiting hand).serial + 1
        history := .arrived (h.traffic waiting hand).serial a (.rejected .unavailable) ::
          (h.traffic waiting hand).history } :=
      .tail (.single (.bounce r.pool pool _ k alive allocated)) (.turnDown a .unavailable rfl)
    rw [routed]
    rcases attempt_cases (h.lent pool r) k ⟨a.message, none, r.serial⟩ with
      ⟨nowhere, attempted⟩ | ⟨i, badge, located, ⟨next, queued, attempted⟩ | ⟨failure, refused, attempted⟩⟩
    · rw [attempted]
      simp only [putOff]
      split
      · next next queued =>
          refine ⟨by rw [alive_enqueue _ _ _ _ queued]; rfl, ?_⟩
          simp only [traffic_enqueue _ _ _ _ id queued, borrowed, Task.errands_cons 0 (.job (.retry k r.serial)) (.retry k r.serial) _ rfl]
          rw [← serial]
          exact .single (.putOff a r.pool pool k alive allocated)
      · refine ⟨alive_reclaim _ _ rfl, ?_⟩
        simp only [traffic_reclaim, borrowed, Option.map_some]
        rw [← serial]
        exact bounced
    · rw [attempted]
      refine ⟨by simp only [record]; rw [alive_enqueue _ _ _ _ queued]; rfl, ?_⟩
      simp only [traffic_record, traffic_enqueue _ _ _ _ id queued, borrowed,
        Parcel.event_errands]
      rw [← serial]
      exact .single (.deliver a r.pool pool k i badge alive allocated located (located_known _ _ h _ _ _ located))
    · rw [attempted]
      refine ⟨alive_reclaim _ _ rfl, ?_⟩
      simp only [traffic_reclaim, borrowed, Option.map_some]
      rw [← serial]
      exact bounced

theorem receive_follows (h next : Hub) (a : Arrival) (routing : Routing) (received : h.receive a = some (routing, next)) :
    Follows h (h.traffic waiting hand) (next.traffic waiting hand) := by
  cases relay : h.relay with
  | none =>
      simp only [receive, relay, Option.map_none] at received
      cases received
  | some r =>
      simp only [receive, relay, Option.map_some, Option.some.injEq, Prod.mk.injEq] at received
      obtain ⟨-, rfl⟩ := received
      obtain ⟨living, follows⟩ := route_follows waiting hand h r a relay
      rw [traffic_arrived _ r.serial a _ living]
      exact follows

theorem retry_follows (past h : Hub) (j n : Nat) (k : Handle) (same : past.outlook = h.outlook) :
    Follows past { h.traffic waiting hand with errands := (j, .retry k n) ::ₘ (h.traffic waiting hand).errands }
      ((h.retry k).2.traffic waiting hand) := by
  cases live : h.relay.bind (·.pool.live? k) with
  | none =>
      rw [retry, live]
      refine .single (.fizzle j n k (h.traffic waiting hand).errands rfl fun p alive => ?_)
      obtain ⟨r, relay, rfl⟩ := Option.map_eq_some_iff.mp alive
      simpa only [relay, Option.bind_some] using live
  | some parcel =>
      obtain ⟨r, relay, live'⟩ := Option.bind_eq_some_iff.mp live
      have alive : (h.traffic waiting hand).pool = some r.pool := by simp only [traffic, relay, Option.map_some]
      have emptied : (h.traffic waiting hand).pool.map (·.reclaimed k) = some (r.pool.reclaimed k) := by
        rw [alive, Option.map_some]
      have elsewhere := locate_outlook past h parcel.message.app same
      rw [retry, live]
      rcases attempt_cases h k parcel with
        ⟨nowhere, attempted⟩ | ⟨i, badge, located, ⟨next, queued, attempted⟩ | ⟨failure, refused, attempted⟩⟩
      · simp only [attempted]
        rw [traffic_record, traffic_reclaim, traffic_count h RelayTally.countUnknown fun _ => rfl, emptied]
        exact .single (.stray j n k _ r.pool parcel rfl alive live' (elsewhere.trans nowhere))
      · simp only [attempted]
        rw [traffic_count _ RelayTally.countDeferredDelivered fun _ => rfl, traffic_record, traffic_enqueue _ _ _ _ id queued, Parcel.event_errands]
        exact .single (.repost j n k _ r.pool parcel i badge rfl alive live' (elsewhere.trans located)
          (located_known waiting _ h _ _ _ located))
      · simp only [attempted]
        rw [traffic_record, traffic_reclaim, emptied]
        obtain ⟨-, l, place, -⟩ := locate_cases h _ i badge located
        obtain ⟨l', there, equal⟩ := loop_outlook h past i l same.symm place
        refine .single (.turnAway j n k _ r.pool parcel i badge l' rfl alive live' (elsewhere.trans located) there ?_)
        rcases enqueue_refused h i _ failure l refused place with (stopped | gone) | ⟨-, full⟩
        · exact .inl (.inl ((congrArg RunLoop.stopped equal).symm.trans stopped))
        · exact .inl (.inr ((congrArg RunLoop.attached equal).symm.trans gone))
        · refine .inr ?_
          have queued := congrArg RunLoop.queuedEvents equal
          have capacity := congrArg (fun l : RunLoop => l.settings.eventCapacity) equal
          simp only at queued capacity
          rw [RunLoop.Full, ← queued, ← capacity]
          exact full

end Hub

end HubRelay
