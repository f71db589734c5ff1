import HubRelay.Proofs.Relay.Custody

/-! Whatever is called, on whatever link, deals with the messages in these steps only. -/

set_option autoImplicit false

namespace HubRelay

variable {hand : List (Nat × Epilogue)} {asked : List Parcel} {bid : Option Bid}

-- The hook that gives a slot back is the relay's own: no event that user code posts bears it. Everything else goes.
def Action.Honest : Action → Prop
  | .post _ e => ∀ k n, e.hook ≠ some (.reclaim k n)
  | _ => True

def Move.Honest : Move → Prop
  | .act a => a.Honest
  | _ => True

namespace Hub

theorem custody_arrived (h : Hub) (serial : Nat) (a : Arrival) (routing : Routing) (alive : h.relay.isSome) :
    (((h.count (RelayTally.countRouting routing)).record (.arrived serial a routing)).passSerial).custody hand asked bid =
      { h.custody hand asked bid with
        serial := (h.custody hand asked bid).serial + 1
        history := .arrived serial a routing :: (h.custody hand asked bid).history } := by
  obtain ⟨r, relay⟩ := relay_count h (RelayTally.countRouting routing) alive
  rw [custody_passSerial _ (by rw [record, relay]; rfl), custody_record, custody_count h _ fun t => by cases routing <;> rfl]

theorem route_deals (h : Hub) (r : Relay) (a : Arrival) (relay : h.relay = some r) :
    (h.route a r).2.relay.isSome ∧
      Deals (h.custody hand asked none)
        { (h.route a r).2.custody hand asked none with
          serial := ((h.route a r).2.custody hand asked none).serial + 1
          history := .arrived r.serial a (h.route a r).1 :: ((h.route a r).2.custody hand asked none).history } := by
  obtain ⟨alive, serial⟩ := @custody_pool hand asked none h r relay
  rcases route_early h r a with ⟨failure, early, routed⟩ | ⟨k, pool, allocated, routed⟩
  · rw [routed, ← serial]
    exact ⟨by rw [relay]; rfl, .single (.turnDown a failure (by rw [alive]; rfl) rfl early)⟩
  · have borrowed := @custody_lent hand asked none h pool r relay
    rw [← serial] at allocated
    have bounced : Deals (h.custody hand asked none) { h.custody hand asked none with
        pool := some (pool.reclaimed k)
        serial := (h.custody hand asked none).serial + 1
        history := .arrived (h.custody hand asked none).serial a (.rejected .unavailable) ::
          (h.custody hand asked none).history } := .single (.bounce a r.pool pool k alive rfl allocated)
    rw [routed]
    rcases attempt_cases (h.lent pool r) k ⟨a.message, none, r.serial⟩ with
      ⟨-, attempted⟩ | ⟨i, badge, -, ⟨next, queued, attempted⟩ | ⟨failure, -, attempted⟩⟩
    · rw [attempted]
      simp only [putOff]
      split
      · next next queued =>
          refine ⟨by rw [alive_enqueue _ _ _ _ queued]; rfl, ?_⟩
          simp only [custody_enqueue _ next 0 _ queued, borrowed, Task.errands_cons 0 (.job (.retry k r.serial)) _ _ rfl]
          rw [← serial]
          exact .single (.putOff a r.pool pool k alive rfl allocated)
      · refine ⟨alive_reclaim _ k rfl, ?_⟩
        simp only [custody_reclaim, borrowed, Option.map_some]
        rw [← serial]
        exact bounced
    · rw [attempted]
      refine ⟨by simp only [record]; rw [alive_enqueue _ _ _ _ queued]; rfl, ?_⟩
      simp only [custody_record, custody_enqueue _ next i _ queued, borrowed, Parcel.event_errands]
      rw [← serial]
      exact .single (.deliver a r.pool pool k i badge alive rfl allocated)
    · rw [attempted]
      refine ⟨alive_reclaim _ k rfl, ?_⟩
      simp only [custody_reclaim, borrowed, Option.map_some]
      rw [← serial]
      exact bounced

theorem receive_deals (h next : Hub) (a : Arrival) (routing : Routing) (received : h.receive a = some (routing, next)) :
    Deals (h.custody hand asked none) (next.custody hand asked none) := by
  cases relay : h.relay with
  | none =>
      simp only [receive, relay, Option.map_none] at received
      cases received
  | some r =>
      simp only [receive, relay, Option.map_some, Option.some.injEq, Prod.mk.injEq] at received
      obtain ⟨-, rfl⟩ := received
      obtain ⟨living, deals⟩ := @route_deals hand asked h r a relay
      rw [custody_arrived _ r.serial a _ living]
      exact deals

theorem retry_deals (h : Hub) (j n : Nat) (k : Handle) :
    Deals { h.custody hand asked none with errands := (j, .retry k n) ::ₘ (h.custody hand asked none).errands }
      ((h.retry k).2.custody hand asked none) := by
  cases live : h.relay.bind (·.pool.live? k) with
  | none =>
      rw [retry, live]
      refine .single (.fizzle j n k (h.custody hand asked none).errands rfl rfl fun p alive => ?_)
      obtain ⟨r, relay, rfl⟩ := Option.map_eq_some_iff.mp alive
      simpa only [relay, Option.bind_some] using live
  | some parcel =>
      obtain ⟨r, relay, live'⟩ := Option.bind_eq_some_iff.mp live
      obtain ⟨alive, -⟩ := @custody_pool hand asked none h r relay
      -- The slot is given back, whatever is told of the message.
      have dropped : ∀ x : Happening, x.Plain →
          Deals { h.custody hand asked none with errands := (j, .retry k n) ::ₘ (h.custody hand asked none).errands }
            { h.custody hand asked none with
              pool := (h.custody hand asked none).pool.map (·.reclaimed k)
              history := x :: (h.custody hand asked none).history } := fun x plain =>
        .tail (.single (.giveUp j (.retry k n) _ rfl rfl rfl)) (.remark x plain rfl)
      rw [retry, live]
      rcases attempt_cases h k parcel with
        ⟨-, attempted⟩ | ⟨i, badge, -, ⟨next, queued, attempted⟩ | ⟨failure, -, attempted⟩⟩
      · simp only [attempted]
        rw [custody_record, custody_reclaim, custody_count h RelayTally.countUnknown fun _ => rfl]
        exact dropped _ ⟨rfl, rfl, rfl, rfl⟩
      · simp only [attempted]
        rw [custody_count _ RelayTally.countDeferredDelivered fun _ => rfl, custody_record, custody_enqueue _ next i _ queued,
          Parcel.event_errands]
        exact .single (.repost j n k _ r.pool parcel i badge rfl rfl alive live')
      · simp only [attempted]
        rw [custody_record, custody_reclaim]
        exact dropped _ ⟨rfl, rfl, rfl, rfl⟩

theorem ask_deals (h : Hub) (k : Handle) :
    Deals (h.custody hand asked none)
      ((h.retry k).2.custody hand ((h.relay.bind (·.pool.live? k)).toList ++ asked) none) := by
  cases live : h.relay.bind (·.pool.live? k) with
  | none =>
      rw [retry, live]
      exact .refl
  | some parcel =>
      obtain ⟨r, relay, live'⟩ := Option.bind_eq_some_iff.mp live
      obtain ⟨alive, -⟩ := @custody_pool hand asked none h r relay
      exact .head (.ask r.pool parcel k alive rfl live') (@retry_deals hand (parcel :: asked) h 0 parcel.serial k)

theorem requestLoad_deals (h : Hub) (i : Nat) (app : AppId) (permissions : Permissions) (program : Program Action) :
    Deals (h.custody hand asked none) ((h.requestLoad i app permissions program).2.custody hand asked none) := by
  cases place : h.loops[i]? with
  | none =>
      simp only [requestLoad, place]
      exact .refl
  | some l =>
      obtain ⟨next, errands, -, -, requested⟩ := requestLoad_cases h i app permissions program l place
      rw [requested]
      refine deals_to (.single (.remark (.requested i (h.badgeFor app permissions l)) ⟨rfl, rfl, rfl, rfl⟩ rfl)) ?_
      simp only [custody, gather_set_same RunLoop.errands h.loops i l next place errands]
      rfl

theorem requestLoads_deals (h : Hub) (i count : Nat) (app : AppId) (last : Reply) :
    Deals (h.custody hand asked none) ((h.requestLoads i count app last).2.custody hand asked none) := by
  induction count generalizing h app last with
  | zero => exact .refl
  | succ count ih => exact (requestLoad_deals h i app Permissions.none .inert).trans (ih _ _ _)

theorem custody_discard (h : Hub) (e : Event) (plain : ∀ k n, ¬e.bears k n) :
    (h.discard e).custody hand asked bid = h.custody hand asked bid := by
  unfold discard
  split
  · rfl
  · rfl
  · next k n hook => exact absurd hook (plain k n)

theorem discard_deals (h : Hub) (i : Nat) (e : Event) (xs : Multiset (Nat × Errand))
    (errands : xs = (Task.event e).errands i ∨ xs = (Epilogue.consume e).errands i) :
    Deals { h.custody hand asked none with errands := xs + (h.custody hand asked none).errands }
      ((h.discard e).custody hand asked none) := by
  rcases event_cases e with ⟨k, n, bears⟩ | ⟨plain, errand, rest, -⟩
  · have hook : e.hook = some (.reclaim k n) := bears
    obtain ⟨queued, held⟩ := bears_errand k n e bears
    have given : ∀ x : Errand, x.pledge? = none → x.holding.1 = k →
        Deals { h.custody hand asked none with errands := (i, x) ::ₘ (h.custody hand asked none).errands }
          ((h.reclaim k).custody hand asked none) := by
      intro x unpledged handle
      rw [custody_reclaim, ← handle]
      exact .single (.giveUp i x _ rfl rfl unpledged)
    simp only [discard, hook]
    rcases errands with rfl | rfl
    · rw [Task.errands_cons i _ _ _ queued]
      exact given (.event k n e) rfl rfl
    · rw [Epilogue.errands, held]
      exact given (.consume k n) rfl rfl
  · have none : xs = 0 := by
      rcases errands with rfl | rfl
      · rw [Task.errands, errand]
        rfl
      · rw [Epilogue.errands, rest]
        rfl
    rw [none, zero_add, custody_discard h e plain]

theorem drop_deals (h : Hub) (i : Nat) (e : Event) (x : Happening) (plain : x.Plain) :
    Deals { h.custody hand asked none with errands := (Task.event e).errands i + (h.custody hand asked none).errands }
      (((h.record x).discard e).custody hand asked none) := by
  have told : Deals { h.custody hand asked none with errands := (Task.event e).errands i + (h.custody hand asked none).errands }
      { (h.record x).custody hand asked none with
        errands := (Task.event e).errands i + ((h.record x).custody hand asked none).errands } := .single (.remark x plain rfl)
  exact told.trans (discard_deals (h.record x) i e _ (.inl rfl))

theorem pass_deals (h : Hub) (i : Nat) (e : Event) (badge : Badge) :
    Deals { h.custody hand asked none with errands := (Task.event e).errands i + (h.custody hand asked none).errands }
      ((h.record (.passed i badge e)).custody ((i, .consume e) :: hand) asked none) := by
  rw [custody_hand, custody_record]
  rcases event_cases e with ⟨k, n, bears⟩ | ⟨-, errand, rest, -⟩
  · obtain ⟨queued, held⟩ := bears_errand k n e bears
    rw [Task.errands_cons i _ _ _ queued, Epilogue.errands, held]
    exact .tail (.single (.pass i n k e _ rfl rfl)) (.remark _ ⟨rfl, rfl, rfl, rfl⟩ rfl)
  · rw [Task.errands_none i _ _ errand, Epilogue.errands, rest]
    refine deals_to (.single (.remark (.passed i badge e) ⟨rfl, rfl, rfl, rfl⟩ rfl)) ?_
    simp

theorem completions_deals (handles : List Handle) (h : Hub) :
    Deals (h.custody hand asked bid) ((handles.foldl (fun h k => h.complete k) h).custody hand asked bid) := by
  induction handles generalizing h with
  | nil => exact .refl
  | cons k rest ih => exact (complete_deals k h).trans (ih (h.complete k))

theorem dropRelay_deals (h : Hub) : Deals (h.custody hand asked none) (h.dropRelay.2.custody hand asked none) := by
  obtain ⟨journal, dropped⟩ := h.dropRelay_cases
  rw [dropped]
  exact .single (.bereave rfl)

end Hub

namespace Stack

theorem next_custody (i : Nat) (t : Task) (s next : Stack) (taken : s.next? i = some (t, next)) :
    s.hub.custody hand asked bid =
      { next.hub.custody hand asked bid with errands := t.errands i + (next.hub.custody hand asked bid).errands } := by
  obtain ⟨l, queue, place, waits, rfl⟩ := next_cases i t s next taken
  have errands := gather_set_less RunLoop.errands s.hub.loops i l { l with queue := queue } _ place
    (RunLoop.errands_pop i t l { l with queue := queue } waits)
  simp only [Hub.custody, onHub, errands, add_left_comm]
  rfl

theorem modify_custody (i : Nat) (f : RunLoop → RunLoop) (s : Stack) (errands : ∀ l : RunLoop, (f l).errands i = l.errands i) :
    (s.modifyLoop i f).hub.custody hand asked bid = s.hub.custody hand asked bid :=
  Hub.custody_modify s.hub i f errands

theorem noteEvent_custody (badge : Badge) (program : Program Action) (e : Event) (s : Stack) :
    (s.noteEvent badge program e).hub.custody hand asked bid = s.hub.custody hand asked bid := by
  cases program <;> rfl

theorem noteEnd_custody (a : Loaded) (s : Stack) :
    (s.noteEnd a).hub.custody hand asked bid = s.hub.custody hand asked bid := by
  unfold noteEnd
  split <;> rfl

theorem noteStart_custody (i : Nat) (badge : Badge) (program : Program Action) (s : Stack) :
    (s.noteStart i badge program).hub.custody hand asked bid = s.hub.custody hand asked bid := by
  unfold noteStart
  split <;> rfl

theorem startEvent_deals (i : Nat) (e : Event) (s : Stack) :
    Deals { s.hub.custody hand asked none with errands := (Task.event e).errands i + (s.hub.custody hand asked none).errands }
      ((s.startEvent i e).2.2.hub.custody ((i, (s.startEvent i e).2.1) :: hand) asked none) := by
  have freed := @modify_custody hand asked none i RunLoop.freeEvent s fun _ => rfl
  unfold startEvent
  simp only
  split
  · have counted := (@modify_custody hand asked none i RunLoop.countDropped (s.modifyLoop i RunLoop.freeEvent) fun _ => rfl).trans
      freed
    rw [Hub.custody_hand_idle _ i .nothing rfl, ← counted]
    exact Hub.drop_deals (((s.modifyLoop i RunLoop.freeEvent).modifyLoop i RunLoop.countDropped).hub.call i (.drop e)) i e
      (.missed i e) ⟨rfl, rfl, rfl, rfl⟩
  · next badge program _ =>
      have set := (@modify_custody hand asked none i (·.setProgram badge.inst program.nextScript.2)
        (s.modifyLoop i RunLoop.freeEvent) fun _ => rfl).trans freed
      have noted := (@noteEvent_custody hand asked none badge program e _).trans set
      rw [← noted]
      exact Hub.pass_deals _ i e badge

theorem startJob_deals (i : Nat) (j : Job) (s : Stack) :
    Deals { s.hub.custody hand asked none with errands := (Task.job j).errands i + (s.hub.custody hand asked none).errands }
      ((s.startJob j).2.2.hub.custody ((i, (s.startJob j).2.1) :: hand) asked none) := by
  cases j with
  | user label script =>
      rw [Task.errands_none i _ _ rfl]
      exact deals_to .refl (Hub.custody_hand_idle _ i .countJob rfl)
  | handBack k n callback payload =>
      rw [Task.errands_cons i _ _ _ rfl]
      exact deals_to (.single (.free i n k callback payload _ rfl rfl)) (Hub.custody_hand _ i (.giveBack k))
  | retry k n =>
      rw [Task.errands_cons i _ _ _ rfl]
      exact deals_to (Hub.retry_deals s.hub i n k) (Hub.custody_hand_idle _ i .countJob rfl)

theorem startTask_deals (i : Nat) (t : Task) (s : Stack) :
    Deals { s.hub.custody hand asked none with errands := t.errands i + (s.hub.custody hand asked none).errands }
      ((s.startTask i t).2.2.hub.custody ((i, (s.startTask i t).2.1) :: hand) asked none) := by
  have idle : ∀ (rest : Epilogue) (next : Stack), t.errand? = none → rest.errand? = none →
      next.hub.custody hand asked none = s.hub.custody hand asked none →
      Deals { s.hub.custody hand asked none with errands := t.errands i + (s.hub.custody hand asked none).errands }
        (next.hub.custody ((i, rest) :: hand) asked none) := by
    intro rest next errand none same
    rw [Task.errands_none i t _ errand, Hub.custody_hand_idle _ i rest none, same]
  cases t with
  | event e => exact startEvent_deals i e s
  | job j => exact startJob_deals i j s
  | load badge program =>
      simp only [startTask, startLoad]
      split
      · exact idle .nothing s rfl rfl rfl
      · exact idle (.install badge program) _ rfl rfl (noteStart_custody i badge program s)
  | unload app =>
      have struck := @modify_custody hand asked none i (·.strike app) s fun _ => rfl
      simp only [startTask, startUnload]
      split
      · exact idle .nothing s rfl rfl rfl
      · next badge _ =>
          split
          · exact idle .nothing _ rfl rfl struck
          · next a _ =>
              have evicted := @modify_custody hand asked none i (·.evict badge.inst) (s.modifyLoop i (·.strike app)) fun _ => rfl
              exact idle .nothing _ rfl rfl ((noteEnd_custody a _).trans (evicted.trans struck))
  | stop => exact idle .nothing s rfl rfl rfl

theorem finishTask_deals (s : Stack) (place i : Nat) (rest : Epilogue) (here : hand[place]? = some (i, rest)) :
    Deals (s.hub.custody hand asked none) ((s.finishTask i rest).hub.custody (hand.eraseIdx place) asked none) := by
  have held : s.hub.custody hand asked none = { s.hub.custody (hand.eraseIdx place) asked none with
      errands := rest.errands i + (s.hub.custody (hand.eraseIdx place) asked none).errands } := by
    simp only [Hub.custody, hand_errands_erase i place rest here, add_assoc]
  have idle : rest.errand? = none → s.hub.custody hand asked none = s.hub.custody (hand.eraseIdx place) asked none := by
    intro none
    rw [held, Epilogue.errands, none]
    simp
  cases rest with
  | nothing => exact deals_to .refl (idle rfl).symm
  | countJob =>
      rw [idle rfl]
      exact deals_to .refl (modify_custody i RunLoop.countJob s fun _ => rfl)
  | install badge program =>
      rw [idle rfl]
      simp only [finishTask]
      split
      · exact deals_to .refl (modify_custody i _ s fun _ => rfl)
      · exact .refl
  | consume e =>
      have counted := @modify_custody (hand.eraseIdx place) asked none i RunLoop.countDelivered s fun _ => rfl
      rw [held, ← counted]
      exact Hub.discard_deals _ i e _ (.inr rfl)
  | giveBack k =>
      have given : Deals (s.hub.custody hand asked none) { s.hub.custody (hand.eraseIdx place) asked none with
          pool := (s.hub.custody (hand.eraseIdx place) asked none).pool.map (·.reclaimed k) } := by
        rw [held]
        exact .single (.giveUp i (.giveBack k) _ rfl rfl rfl)
      refine deals_to given ?_
      simp only [finishTask]
      rw [modify_custody i RunLoop.countJob _ fun _ => rfl]
      refine (Hub.custody_reclaim _ k).trans ?_
      rw [Hub.custody_count s.hub RelayTally.countInvoked fun _ => rfl]

theorem dropTask_deals (i : Nat) (s : Stack) :
    Deals (s.hub.custody hand asked none) ((s.dropTask i).hub.custody hand asked none) := by
  unfold dropTask
  split
  · exact .refl
  · exact .refl
  · next e next taken =>
      have counted := @modify_custody hand asked none i (fun l => l.freeEvent.countDropped) next fun _ => rfl
      rw [next_custody i _ s next taken, ← counted]
      exact Hub.drop_deals ((next.modifyLoop i fun l => l.freeEvent.countDropped).hub.call i (.drop e)) i e (.drained i e)
        ⟨rfl, rfl, rfl, rfl⟩
  · next t next notJob notEvent taken =>
      have none : t.errand? = none := by
        cases t with
        | event e => exact (notEvent e rfl).elim
        | job j => exact (notJob j rfl).elim
        | load | unload | stop => rfl
      rw [next_custody i t s next taken, Task.errands_none i t _ none]

theorem offer_deals (m : Outgoing) (s : Stack) :
    Deals (s.hub.custody hand asked bid) ((s.offer m).2.hub.custody hand asked bid) ∧
      (s.offer m).2.hub.relay.map (·.serial) = s.hub.relay.map (·.serial) := by
  have numbered : ∀ (handles : List Handle) (h : Hub),
      (handles.foldl (fun h k => h.complete k) h).relay.map (·.serial) = h.relay.map (·.serial) := by
    intro handles
    induction handles with
    | nil => exact fun h => rfl
    | cons k rest ih => exact fun h => (ih (h.complete k)).trans (Hub.relay_complete k h)
  unfold offer
  split
  · exact ⟨.refl, rfl⟩
  · simp only
    split <;> exact ⟨Hub.completions_deals _ s.hub, numbered _ s.hub⟩

theorem reject_custody (failure : SendFailure) (payload : Payload) (s : Stack) :
    (s.reject failure payload).2.hub.custody hand asked bid = s.hub.custody hand asked bid :=
  Hub.custody_count s.hub _ fun t => by cases failure <;> rfl

theorem credit_custody (badge : Badge) (woke : Bool) (s : Stack) :
    (s.credit badge woke).hub.custody hand asked bid = s.hub.custody hand asked bid := by
  unfold credit
  split
  · rfl
  · next r relay =>
      simp only [onHub, Hub.custody, Hub.tally, relay]
      rfl

theorem credit_alive (badge : Badge) (woke : Bool) (s : Stack) (alive : s.hub.relay.isSome) :
    (s.credit badge woke).hub.relay.isSome := by
  obtain ⟨r, relay⟩ := Option.isSome_iff_exists.mp alive
  simp only [credit, relay]
  rfl

def answered (badge : Badge) (d : Dispatch Action) (n : Nat) (outcome : Reply × Stack) (hand : List (Nat × Epilogue))
    (asked : List Parcel) : Custody :=
  { outcome.2.hub.custody hand asked none with
    serial := (outcome.2.hub.custody hand asked none).serial + 1
    history := .offered n badge d outcome.1 :: (outcome.2.hub.custody hand asked none).history }

theorem answer_deal (badge : Badge) (d : Dispatch Action) (k : Handle) (woke accepted : Bool) (after : Stack) (r : Relay)
    (relay : after.hub.relay = some r) :
    Deal (after.hub.custody hand asked (some ⟨badge, d, k⟩))
      (answered badge d r.serial (if accepted then (.sent k, after.credit badge woke)
        else (after.withdraw k).2.reject .refused (after.withdraw k).1) hand asked) := by
  obtain ⟨alive, serial⟩ := @Hub.custody_pool hand asked (some ⟨badge, d, k⟩) after.hub r relay
  cases accepted with
  | true =>
      simp only [answered, if_true, credit_custody]
      rw [← serial]
      exact .accept ⟨badge, d, k⟩ (by rw [alive]; rfl) rfl
  | false =>
      simp only [answered, Bool.false_eq_true, if_false, reject_custody, withdraw_cases, onHub, Hub.custody_reclaim]
      rw [← serial]
      exact .withdraw ⟨badge, d, k⟩ _ (by rw [alive]; rfl) rfl

theorem sendAs_deals (badge : Badge) (d : Dispatch Action) (r : Relay) (s : Stack) (relay : s.hub.relay = some r) :
    (s.sendAs badge d r).2.hub.relay.isSome ∧
      Deals (s.hub.custody hand asked none) (answered badge d r.serial (s.sendAs badge d r) hand asked) := by
  obtain ⟨alive, serial⟩ := @Hub.custody_pool hand asked none s.hub r relay
  have counted : ∀ (failure : SendFailure) (payload : Payload) (next : Stack), next.hub.relay.isSome →
      (next.reject failure payload).2.hub.relay.isSome := by
    intro failure payload next living
    obtain ⟨r', relay'⟩ := Hub.relay_count next.hub (RelayTally.countRejection failure) living
    rw [reject, onHub, relay']
    rfl
  rcases sendAs_early badge d s r with ⟨failure, early, answer⟩ | ⟨k, pool, allocated, answer⟩
  · obtain ⟨journal, noted⟩ := s.hub.noteDropped_cases d.free
    rw [answer]
    refine ⟨counted failure _ _ (by rw [onHub, noted, relay]; rfl), ?_⟩
    rw [answered, reject_custody]
    simp only [onHub, Hub.custody_noteDropped]
    rw [← serial]
    exact .single (.refuse badge d failure d.payload (by rw [alive]; rfl) rfl early)
  · have lent := @Hub.lent_deal hand asked badge d (!s.power.awake) k pool r s.hub relay allocated
    obtain ⟨offered, numbered⟩ := @offer_deals hand asked (some ⟨badge, d, k⟩) ⟨k, d.message badge (!s.power.awake)⟩
      (s.onHub (·.lent pool r))
    rw [answer]
    generalize taken : (s.onHub (·.lent pool r)).offer ⟨k, d.message badge (!s.power.awake)⟩ = outcome at offered numbered
    obtain ⟨accepted, after⟩ := outcome
    obtain ⟨r', relay', same⟩ := Option.map_eq_some_iff.mp numbered
    have deal := @answer_deal hand asked badge d k (!s.power.awake) accepted after r' relay'
    rw [show r'.serial = r.serial from same] at deal
    cases accepted with
    | true => exact ⟨credit_alive badge _ after (by rw [relay']; rfl), .head lent (.tail offered deal)⟩
    | false =>
        exact ⟨counted .refused _ _ (by rw [withdraw_cases]; exact Hub.alive_reclaim _ k (by rw [relay']; rfl)),
          .head lent (.tail offered deal)⟩

theorem send_deals (d : Dispatch Action) (s : Stack) :
    Deals (s.hub.custody hand asked none) ((s.send d).2.hub.custody hand asked none) := by
  rcases send_cases d s with same | ⟨r, badge, labels, relay, sent⟩
  · rw [same]
  · obtain ⟨living, deals⟩ := @sendAs_deals hand asked badge d r s relay
    rw [sent]
    exact deals_to deals (Hub.custody_passSerial _ living)

theorem haul_deals (s : Stack) : Deals (s.hub.custody hand asked bid) (s.haul.hub.custody hand asked bid) := by
  unfold haul
  split
  · next u _ =>
      exact Uplink.haul_keeps Hub.complete (fun h => Deals (s.hub.custody hand asked bid) (h.custody hand asked bid))
        (fun k h deals => deals.trans (Hub.complete_deals k h)) u s.hub .refl
  · exact .refl

theorem flush_deals (s : Stack) : Deals (s.hub.custody hand asked bid) (s.flush.2.hub.custody hand asked bid) := by
  unfold flush
  split
  · next u _ =>
      exact Uplink.haul_keeps Hub.complete (fun h => Deals (s.hub.custody hand asked bid) (h.custody hand asked bid))
        (fun k h deals => deals.trans (Hub.complete_deals k h)) u s.hub .refl
  · exact .refl

theorem shutdown_deals (s : Stack) : Deals (s.hub.custody hand asked bid) (s.shutdown.hub.custody hand asked bid) := by
  unfold shutdown
  split
  · next u _ =>
      exact Uplink.shutdown_keeps Hub.complete (fun h => Deals (s.hub.custody hand asked bid) (h.custody hand asked bid))
        (fun k h deals => deals.trans (Hub.complete_deals k h)) u s.hub .refl
  · exact .refl

theorem uplink_deals (c : UplinkCall) (u : Uplink) (s : Stack) :
    Deals (s.hub.custody hand asked bid) ((s.onUplink c u).2.hub.custody hand asked bid) := by
  cases c with
  | start =>
      simp only [onUplink]
      split <;> exact .refl
  | pump limit =>
      exact Uplink.pump_keeps Hub.complete (fun h => Deals (s.hub.custody hand asked bid) (h.custody hand asked bid))
        (fun k h deals => deals.trans (Hub.complete_deals k h)) limit u s.hub .refl
  | pause | resume | spoil | takeReceived => exact .refl

def asks (a : Action) (s : Stack) : List Parcel :=
  match a with
  | .retry r => ((s.handle? r).bind fun k => s.hub.relay.bind (·.pool.live? k)).toList
  | _ => []

theorem enqueue_custody (s next : Stack) (i : Nat) (t : Task) (idle : t.errand? = none) (queued : s.enqueue i t = .ok next) :
    next.hub.custody hand asked bid = s.hub.custody hand asked bid := by
  unfold enqueue at queued
  split at queued
  · next hub taken =>
      cases queued
      rw [Hub.custody_enqueue s.hub hub i t taken, Task.errands_none i t _ idle]
  · cases queued

theorem endCycle_custody (s : Stack) : s.endCycle.hub.custody hand asked bid = s.hub.custody hand asked bid := by
  simp only [endCycle, onHub, Hub.onRelay, Hub.custody, Hub.tally]
  cases s.hub.relay <;> rfl

theorem ifLoop_deals (i : Nat) (f : RunLoop → Reply × Stack) (s : Stack)
    (each : ∀ l, Deals (s.hub.custody hand asked bid) ((f l).2.hub.custody hand asked bid)) :
    Deals (s.hub.custody hand asked bid) ((s.ifLoop i f).2.hub.custody hand asked bid) :=
  s.ifLoop_keeps (fun s' => Deals (s.hub.custody hand asked bid) (s'.hub.custody hand asked bid)) i f .refl fun l _ => each l

theorem ifRelay_deals (f : Stack → Reply × Stack) (s : Stack)
    (each : Deals (s.hub.custody hand asked bid) ((f s).2.hub.custody hand asked bid)) :
    Deals (s.hub.custody hand asked bid) ((s.ifRelay f).2.hub.custody hand asked bid) :=
  s.ifRelay_keeps (fun s' => Deals (s.hub.custody hand asked bid) (s'.hub.custody hand asked bid)) f .refl each

theorem act_deals (a : Action) (s : Stack) (honest : a.Honest) :
    Deals (s.hub.custody hand asked none) ((s.act a).2.hub.custody hand (s.asks a ++ asked) none) := by
  have queued : ∀ (i : Nat) (t : Task) (next : Stack), t.errand? = none → s.enqueue i t = .ok next →
      Deals (s.hub.custody hand asked none) (next.hub.custody hand asked none) :=
    fun i t next idle taken => deals_to .refl (enqueue_custody s next i t idle taken)
  cases a with
  | load i app permissions program =>
      exact ifLoop_deals i _ s fun _ => Hub.requestLoad_deals s.hub i app permissions program
  | loadMany i app count => exact ifLoop_deals i _ s fun _ => Hub.requestLoads_deals s.hub i count app .done
  | unload i app =>
      refine ifLoop_deals i _ s fun _ => ?_
      split
      · next next taken => exact queued i (.unload app) next rfl taken
      · exact .refl
  | find i app => exact ifLoop_deals i _ s fun _ => .refl
  | grab i app name =>
      refine ifLoop_deals i _ s fun _ => ?_
      split <;> exact .refl
  | enrol | wake => exact .refl
  | post i event =>
      refine ifLoop_deals i _ s fun _ => ?_
      have plain : ∀ k n, ¬event.bears k n := honest
      rcases Hub.event_cases event with ⟨k, n, bears⟩ | ⟨-, errand, -, -⟩
      · exact absurd bears (plain k n)
      · split
        · next next taken => exact queued i (.event event) next errand taken
        · exact deals_to .refl (Hub.custody_discard s.hub event plain)
  | defer i label script =>
      refine ifLoop_deals i _ s fun _ => ?_
      split
      · next next taken => exact queued i (.job (.user label script)) next rfl taken
      · exact .refl
  | stop i elsewhere =>
      refine ifLoop_deals i _ s fun _ => deals_to .refl (Hub.custody_modify s.hub i _ fun l => ?_)
      exact (RunLoop.quiet_stop _ l).1 i
  | send d => exact send_deals d s
  | complete r =>
      refine ifRelay_deals _ s ?_
      split
      · exact .refl
      · next k _ => exact Hub.complete_deals k s.hub
  | retry r =>
      simp only [act, ifHandle, ifRelay, asks]
      split
      · next gone =>
          have dead : s.hub.relay = none := Option.isNone_iff_eq_none.mp gone
          simp only [dead, Option.bind_none, Option.bind_fun_none]
          exact .refl
      · split
        · next unknown =>
            rw [unknown]
            exact .refl
        · next k named =>
            rw [named]
            exact Hub.ask_deals s.hub k
  | deliver arrival viaLink =>
      simp only [act]
      split
      · next routing hub received => exact Hub.receive_deals s.hub hub arrival routing received
      · exact .refl
  | resetClaim => exact ifRelay_deals _ s (deals_to .refl (endCycle_custody s))
  | shutdown => exact ifRelay_deals _ s (shutdown_deals s)
  | flush => exact ifRelay_deals _ s (flush_deals s)
  | suspend =>
      simp only [act]
      split
      · exact deals_to .refl (endCycle_custody _)
      · exact .refl
  | uplink call =>
      simp only [act]
      split
      · next u _ => exact uplink_deals call u s
      · exact .refl
  | puppet call =>
      simp only [act]
      split
      · exact .refl
      · cases call <;> exact .refl
  | malformed toRelay =>
      simp only [act]
      split
      · exact ifRelay_deals _ s .refl
      · exact .refl

end Stack

namespace Scene

def asks (m : Move) (c : Scene) : List Parcel :=
  match m with
  | .act a => c.stack.asks a
  | _ => []

-- The live messages that retries have named which no callback made, the latest first.
def retried (moves : List Move) (c : Scene) : List Parcel :=
  match moves with
  | [] => []
  | m :: rest => (c.move m).retried rest ++ c.asks m

def custody (asked : List Parcel) (c : Scene) : Custody := c.stack.hub.custody c.hand asked none

theorem move_deals (m : Move) (c : Scene) (asked : List Parcel) (honest : m.Honest) :
    Deals (c.custody asked) ((c.move m).custody (c.asks m ++ asked)) := by
  have modified : ∀ (i : Nat) (f : RunLoop → RunLoop), (∀ l : RunLoop, (f l).errands i = l.errands i) →
      Deals (c.custody asked) ((c.onStack (·.modifyLoop i f)).custody asked) :=
    fun i f errands => deals_to .refl (Stack.modify_custody i f c.stack errands)
  cases m with
  | act a => exact Stack.act_deals a c.stack honest
  | haul => exact Stack.haul_deals c.stack
  | turn | note | tell => exact .refl
  | occupy i | shut i | clearRoster i => exact modified i _ fun _ => rfl
  | take i =>
      simp only [move, take]
      split
      · exact .refl
      · next t next taken =>
          rw [custody, Stack.next_custody i t c.stack next taken]
          exact Stack.startTask_deals i t next
  | finish place =>
      simp only [move, finish]
      split
      · exact .refl
      · next i rest here => exact Stack.finishTask_deals c.stack place i rest here
  | quit i place =>
      obtain ⟨journal, calls, left⟩ := Stack.quit_cases i place c.stack
      simp only [move, onStack, left]
      exact modified i (·.dismiss place) fun _ => rfl
  | drop i =>
      simp only [move]
      split
      · exact Stack.dropTask_deals i c.stack
      · exact .refl
  | detach i =>
      simp only [move]
      split
      · exact modified i _ fun _ => rfl
      · exact .refl
  | dropRelay => exact Hub.dropRelay_deals c.stack.hub

theorem run_deals (moves : List Move) (c : Scene) (asked : List Parcel) (honest : ∀ m ∈ moves, m.Honest) :
    Deals (c.custody asked) ((c.run moves).custody (c.retried moves ++ asked)) := by
  induction moves generalizing c asked with
  | nil => exact .refl
  | cons m rest ih =>
      have first := move_deals m c asked (honest m List.mem_cons_self)
      have later := ih (c.move m) (c.asks m ++ asked) fun m' member => honest m' (List.mem_cons_of_mem m member)
      rw [← List.append_assoc] at later
      exact first.trans later

end Scene

end HubRelay
