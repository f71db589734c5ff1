import HubRelay.Proofs.Relay.Deliveries

/-! What nanoapps ask for: loads, and messages to the host. -/

set_option autoImplicit false

namespace HubRelay

variable {waiting : Multiset Outgoing} {hand : List (Nat × Epilogue)}

namespace Hub

theorem traffic_set_desk (waiting : Multiset Outgoing) (hand : List (Nat × Epilogue)) (h : Hub) (i : Nat) (l next : RunLoop)
    (place : h.loops[i]? = some l) (errands : next.errands i = l.errands i) :
    ({ h with loops := h.loops.set i next } : Hub).traffic waiting hand =
      { h.traffic waiting hand with
        known := (({ h with loops := h.loops.set i next } : Hub).traffic waiting hand).known
        desks := (h.traffic waiting hand).desks.set i next.desk } := by
  simp only [traffic, List.map_set, gather_set_same RunLoop.errands h.loops i l next place errands]

theorem desk_place (h : Hub) (i : Nat) (l : RunLoop) (place : h.loops[i]? = some l) :
    (h.traffic waiting hand).desks[i]? = some l.desk := by
  simp only [traffic, List.getElem?_map, place, Option.map_some]

def badgeFor (app : AppId) (permissions : Permissions) (l : RunLoop) (h : Hub) : Badge :=
  ⟨app, l.issue.1, permissions, h.ledger.opened⟩

def issued (i : Nat) (app : AppId) (permissions : Permissions) (l : RunLoop) (h : Hub) : Hub :=
  ({ h with loops := h.loops.set i l.issue.2, ledger := h.ledger.openRow.2 } : Hub).record
    (.requested i (h.badgeFor app permissions l))

theorem requestLoad_issued (h : Hub) (i : Nat) (app : AppId) (permissions : Permissions) (program : Program Action)
    (l : RunLoop) (place : h.loops[i]? = some l) :
    (h.requestLoad i app permissions program).2 =
      match (h.issued i app permissions l).enqueue i (.load (h.badgeFor app permissions l) program) with
      | .ok next => next
      | .error _ => h.issued i app permissions l := by
  simp only [requestLoad, place]
  change (match (h.issued i app permissions l).enqueue i (.load (h.badgeFor app permissions l) program) with
    | .ok next => (Except.ok l.issue.1, next)
    | .error failure => (.error failure, h.issued i app permissions l)).2 = _
  cases (h.issued i app permissions l).enqueue i (.load (h.badgeFor app permissions l) program) <;> rfl

theorem requestLoad_cases (h : Hub) (i : Nat) (app : AppId) (permissions : Permissions) (program : Program Action)
    (l : RunLoop) (place : h.loops[i]? = some l) :
    ∃ next, next.errands i = l.errands i ∧ next.desk = l.issue.2.desk ∧
      (∀ badge, next.Knows badge → l.Knows badge ∨ badge = h.badgeFor app permissions l) ∧
      (h.requestLoad i app permissions program).2 =
        { h with
          loops := h.loops.set i next
          ledger := h.ledger.openRow.2
          history := .requested i (h.badgeFor app permissions l) :: h.history } := by
  have bound := (List.getElem?_eq_some_iff.mp place).1
  have here : (h.issued i app permissions l).loops[i]? = some l.issue.2 := List.getElem?_set_self bound
  rw [requestLoad_issued h i app permissions program l place]
  split
  · next next queued =>
      obtain ⟨l', after, place', taken, rfl⟩ := enqueue_cases _ next i _ queued
      rw [here] at place'
      cases place'
      have change := RunLoop.enqueue_cases _ _ after taken
      refine ⟨after, ?_, by rw [change]; rfl, fun badge known => ?_, ?_⟩
      · rw [RunLoop.errands_push i _ l.issue.2 after (by rw [change])]
        exact Task.errands_none i _ _ rfl
      · rw [change] at known
        simp only [RunLoop.Knows, Fifo.toList_push, List.mem_append, List.mem_singleton, Task.load.injEq] at known
        rcases known with listed | loaded | ⟨program', waits | ⟨rfl, -⟩⟩
        · exact .inl (.inl listed)
        · exact .inl (.inr (.inl loaded))
        · exact .inl (.inr (.inr ⟨program', waits⟩))
        · exact .inr rfl
      · simp only [issued, record, List.set_set]
  · exact ⟨l.issue.2, rfl, rfl, fun badge known => .inl known, rfl⟩

theorem requestLoad_follows (past h : Hub) (i : Nat) (app : AppId) (permissions : Permissions)
    (program : Program Action) :
    Follows past (h.traffic waiting hand) ((h.requestLoad i app permissions program).2.traffic waiting hand) := by
  cases place : h.loops[i]? with
  | none =>
      simp only [requestLoad, place]
      exact .refl
  | some l =>
      obtain ⟨next, errands, desk, knows, requested⟩ := requestLoad_cases h i app permissions program l place
      have change := traffic_set_desk waiting hand h i l next place errands
      rw [desk] at change
      have final : ({ h with
            loops := h.loops.set i next
            ledger := h.ledger.openRow.2
            history := .requested i (h.badgeFor app permissions l) :: h.history } : Hub).traffic waiting hand =
          { ({ h with loops := h.loops.set i next } : Hub).traffic waiting hand with
            history := .requested i (h.badgeFor app permissions l) :: h.history } := rfl
      rw [requested, final, change]
      refine .single (.request i l.desk (h.badgeFor app permissions l) _ (desk_place h i l place) rfl fun j b known => ?_)
      rcases known with held | known
      · exact .inl (.inl held)
      · rcases knows_set_within h i j l next b place known with ⟨rfl, inside⟩ | there
        · rcases knows b inside with before | fresh
          · exact .inl (.inr ⟨l, place, before⟩)
          · exact .inr ⟨rfl, fresh⟩
        · exact .inl (.inr there)

theorem requestLoads_follows (past h : Hub) (i count : Nat) (app : AppId) (last : Reply) :
    Follows past (h.traffic waiting hand) ((h.requestLoads i count app last).2.traffic waiting hand) := by
  induction count generalizing h app last with
  | zero => exact .refl
  | succ count ih => exact (requestLoad_follows past h i app Permissions.none .inert).trans (ih _ _ _)

end Hub

namespace Stack

def traffic (hand : List (Nat × Epilogue)) (s : Stack) : Traffic := s.hub.traffic s.link.waiting hand

def Linked (s : Stack) : Prop := ∃ u, s.link = .uplink u

theorem offer_cases (m : Outgoing) (s : Stack) (linked : s.Linked) :
    ∃ u, s.offer m = (true, s.setUplink u) ∧ (u.queue.toList : Multiset Outgoing) = m ::ₘ s.link.waiting ∨
      s.offer m = (false, s.setUplink u) ∧ (u.queue.toList : Multiset Outgoing) = s.link.waiting := by
  obtain ⟨u, link⟩ := linked
  refine ⟨(u.send m).2, ?_⟩
  simp only [offer, link, Link.waiting, Uplink.send]
  split
  · exact .inr ⟨rfl, rfl⟩
  · refine .inl ⟨rfl, ?_⟩
    simp only [Fifo.toList_push]
    rw [← Multiset.coe_add, add_comm]
    rfl

theorem reject_cases (hand : List (Nat × Epilogue)) (failure : SendFailure) (payload : Payload) (s : Stack) :
    (s.reject failure payload).1 = .rejected failure payload ∧ (s.reject failure payload).2.link = s.link ∧
      (s.reject failure payload).2.traffic hand = s.traffic hand ∧
      ((s.reject failure payload).2.hub.relay.isSome ↔ s.hub.relay.isSome) := by
  refine ⟨rfl, rfl, ?_, ?_⟩
  · exact Hub.traffic_count _ _ fun t => by cases failure <;> rfl
  · simp [reject, onHub, Hub.count, Hub.onRelay]

theorem credit_cases (hand : List (Nat × Epilogue)) (badge : Badge) (woke : Bool) (s : Stack) :
    (s.credit badge woke).link = s.link ∧ (s.credit badge woke).traffic hand = s.traffic hand ∧
      ((s.credit badge woke).hub.relay.isSome ↔ s.hub.relay.isSome) := by
  unfold credit
  split
  · exact ⟨rfl, rfl, .rfl⟩
  · next r relay =>
      refine ⟨rfl, ?_, by simp [onHub, relay]⟩
      simp only [traffic, onHub, Hub.traffic, relay]
      rfl

theorem withdraw_cases (k : Handle) (s : Stack) : (s.withdraw k).2 = s.onHub (·.reclaim k) := by
  unfold withdraw
  split <;> rfl

def Answers (past : Hub) (hand : List (Nat × Epilogue)) (badge : Badge) (d : Dispatch Action) (s : Stack)
    (outcome : Reply × Stack) : Prop :=
  outcome.2.Linked ∧ outcome.2.hub.relay.isSome ∧
    Follows past (s.traffic hand)
      { outcome.2.traffic hand with
        serial := (outcome.2.traffic hand).serial + 1
        history := .offered (s.traffic hand).serial badge d outcome.1 :: (outcome.2.traffic hand).history }

theorem refusal_answers (past : Hub) (badge : Badge) (d : Dispatch Action) (s : Stack) (failure : SendFailure)
    (linked : s.Linked) (living : s.hub.relay.isSome) :
    Answers past hand badge d s ((s.onHub (·.noteDropped d.free)).reject failure d.payload) := by
  obtain ⟨answer, link, same, survives⟩ := reject_cases hand failure d.payload (s.onHub (·.noteDropped d.free))
  have dropped : (s.onHub (·.noteDropped d.free)).traffic hand = s.traffic hand := Hub.traffic_noteDropped _ _
  obtain ⟨journal, noted⟩ := s.hub.noteDropped_cases d.free
  obtain ⟨u, here⟩ := linked
  refine ⟨⟨u, link.trans here⟩, survives.mpr ?_, ?_⟩
  · simp only [onHub, noted]
    exact living
  · rw [same, dropped, answer]
    exact .single (.refuse badge d failure d.payload (by simpa [traffic, Hub.traffic] using living))

theorem sendAs_early (badge : Badge) (d : Dispatch Action) (s : Stack) (r : Relay) :
    (∃ failure, failure ≠ .refused ∧ s.sendAs badge d r = (s.onHub (·.noteDropped d.free)).reject failure d.payload) ∨
      ∃ k pool, r.pool.allocate ⟨d.message badge (!s.power.awake), d.free, r.serial⟩ = some (k, pool) ∧
        s.sendAs badge d r =
          match (s.onHub (·.lent pool r)).offer ⟨k, d.message badge (!s.power.awake)⟩ with
          | (true, after) => (.sent k, after.credit badge (!s.power.awake))
          | (false, s) => (s.withdraw k).2.reject .refused (s.withdraw k).1 := by
  simp only [sendAs]
  split
  · exact .inl ⟨.tooLarge _ _, by simp, rfl⟩
  · split
    · exact .inl ⟨.permissions _ _, by simp, rfl⟩
    · split
      · exact .inl ⟨.poolExhausted, by simp, rfl⟩
      · next k pool allocated => exact .inr ⟨k, pool, allocated, rfl⟩

theorem sendAs_cases (badge : Badge) (d : Dispatch Action) (s : Stack) (r : Relay) :
    (∃ failure, s.sendAs badge d r = (s.onHub (·.noteDropped d.free)).reject failure d.payload) ∨
      ∃ woke k pool, r.pool.allocate ⟨d.message badge woke, d.free, r.serial⟩ = some (k, pool) ∧
        s.sendAs badge d r =
          match (s.onHub (·.lent pool r)).offer ⟨k, d.message badge woke⟩ with
          | (true, s) => (.sent k, s.credit badge woke)
          | (false, s) => (s.withdraw k).2.reject .refused (s.withdraw k).1 := by
  rcases sendAs_early badge d s r with ⟨failure, -, refused⟩ | ⟨k, pool, allocated, answered⟩
  · exact .inl ⟨failure, refused⟩
  · exact .inr ⟨_, k, pool, allocated, answered⟩

theorem sendAs_answers (hand : List (Nat × Epilogue)) (past : Hub) (badge : Badge) (d : Dispatch Action) (s : Stack)
    (r : Relay) (linked : s.Linked) (relay : s.hub.relay = some r) : Answers past hand badge d s (s.sendAs badge d r) := by
  have living : s.hub.relay.isSome := by rw [relay]; rfl
  have alive : (s.traffic hand).pool = some r.pool := by simp only [traffic, Hub.traffic, relay, Option.map_some]
  have serial : (s.traffic hand).serial = r.serial := by
    simp only [traffic, Hub.traffic, relay, Option.map_some, Option.getD_some]
  rcases sendAs_cases badge d s r with ⟨failure, answered⟩ | ⟨woke, k, pool, allocated, answered⟩
  · rw [answered]
    exact refusal_answers past badge d s failure linked living
  · have borrowed : ∀ waiting, (s.hub.lent pool r).traffic waiting hand =
        { s.hub.traffic waiting hand with pool := some pool } := fun _ => Hub.traffic_lent _ _ _ _ _ relay
    rw [← serial] at allocated
    rw [answered]
    obtain ⟨u, ⟨offered, queue⟩ | ⟨offered, queue⟩⟩ :=
      offer_cases ⟨k, d.message badge woke⟩ (s.onHub (·.lent pool r)) linked
    · rw [offered]
      obtain ⟨link, same, survives⟩ := credit_cases hand badge woke ((s.onHub (·.lent pool r)).setUplink u)
      refine ⟨⟨u, link⟩, survives.mpr rfl, ?_⟩
      have sent : ((s.onHub (·.lent pool r)).setUplink u).traffic hand =
          { s.traffic hand with pool := some pool, waiting := ⟨k, d.message badge woke⟩ ::ₘ (s.traffic hand).waiting } := by
        simp only [traffic, setUplink, onHub, Link.waiting, queue, borrowed]
        rfl
      rw [same, sent]
      exact .single (.accept badge d woke r.pool pool k alive allocated)
    · rw [offered]
      simp only
      rw [withdraw_cases]
      obtain ⟨answer, link, same, survives⟩ := reject_cases hand .refused
        (((s.onHub (·.lent pool r)).setUplink u).withdraw k).1
        (((s.onHub (·.lent pool r)).setUplink u).onHub (·.reclaim k))
      refine ⟨⟨u, link⟩, survives.mpr (Hub.alive_reclaim _ k rfl), ?_⟩
      have returned : (((s.onHub (·.lent pool r)).setUplink u).onHub (·.reclaim k)).traffic hand =
          { s.traffic hand with pool := some (pool.reclaimed k) } := by
        simp only [traffic, setUplink, onHub, Link.waiting, queue, Hub.traffic_reclaim, borrowed]
        rfl
      rw [same, answer, returned]
      exact .tail (.single (.bounce r.pool pool _ k alive allocated)) (.refuse badge d .refused _ rfl)

theorem send_cases (d : Dispatch Action) (s : Stack) :
    (s.send d).2 = s ∨
      ∃ r badge labels, s.hub.relay = some r ∧
        (s.send d).2 = { (s.sendAs badge d r).2.onHub fun h =>
            (h.record (.offered r.serial badge d (s.sendAs badge d r).1)).passSerial with labels := labels } := by
  unfold send
  split
  · exact .inl rfl
  · next r relay =>
      split
      · exact .inl rfl
      · next badge named =>
          refine .inr ⟨r, badge, ?_⟩
          simp only
          split
          · split
            · exact ⟨_, relay, rfl⟩
            · split <;> exact ⟨_, relay, rfl⟩
          · exact ⟨_, relay, rfl⟩

theorem send_follows (past : Hub) (d : Dispatch Action) (s : Stack) (linked : s.Linked) :
    (s.send d).2.Linked ∧ Follows past (s.traffic hand) ((s.send d).2.traffic hand) := by
  rcases send_cases d s with same | ⟨r, badge, labels, relay, sent⟩
  · rw [same]
    exact ⟨linked, .refl⟩
  · obtain ⟨linked', living, follows⟩ := sendAs_answers hand past badge d s r linked relay
    obtain ⟨r', relay'⟩ := Option.isSome_iff_exists.mp living
    have serial : (s.traffic hand).serial = r.serial := by
      simp only [traffic, Hub.traffic, relay, Option.map_some, Option.getD_some]
    rw [sent]
    refine ⟨linked', ?_⟩
    rw [serial] at follows
    have final := Hub.traffic_passSerial (s.sendAs badge d r).2.link.waiting hand
      ((s.sendAs badge d r).2.hub.record (.offered r.serial badge d (s.sendAs badge d r).1)) r' relay'
    rw [Hub.traffic_record] at final
    exact follows_to follows final

end Stack

end HubRelay
