import HubRelay.Proofs.Loop.Stops
import HubRelay.Proofs.Relay.Registers

/-! What few operations change of a hub: how its relay was set up, which loops the relay knows, which threads drive
them, and which payloads are to be handed back or were. -/

set_option autoImplicit false

namespace HubRelay

def Happening.returns : Happening → Bool
  | .completed _ (.handed _) | .freed _ _ _ => true
  | _ => false

theorem RunLoop.owner_stop (caller : Option Thread) (l : RunLoop) : (l.stop caller).owner = l.owner := by
  unfold stop
  split
  · rfl
  · split <;> rfl

structure Bearings where
  -- Is `none` once the relay was dropped.
  settings : Option RelaySettings
  registered : Nat
  owners : List (Option Thread)
  thread : Thread
  -- The latest first.
  returns : List Happening

namespace Hub

structure Hosts (app : AppId) (i : Nat) (badge : Badge) (h : Hub) : Prop where
  registered : i < h.registered
  here : ∃ l, h.loops[i]? = some l ∧ l.badge? app = some badge
  first : ∀ j l, j < i → h.loops[j]? = some l → l.badge? app = none

def Nowhere (app : AppId) (h : Hub) : Prop := ∀ j l, j < h.registered → h.loops[j]? = some l → l.badge? app = none

theorem located_from (app : AppId) (loops : List RunLoop) (n : Nat) :
    (∃ i l badge, loops[i]? = some l ∧ l.badge? app = some badge ∧
        (∀ (j : Nat) (l' : RunLoop), j < i → loops[j]? = some l' → l'.badge? app = none) ∧
        (loops.zipIdx n).findSome? (fun x => (x.1.badge? app).map (x.2, ·)) = some (n + i, badge)) ∨
      (∀ (j : Nat) (l : RunLoop), loops[j]? = some l → l.badge? app = none) ∧
        (loops.zipIdx n).findSome? (fun x => (x.1.badge? app).map (x.2, ·)) = none := by
  induction loops generalizing n with
  | nil => exact .inr ⟨fun j l place => (nomatch place), rfl⟩
  | cons first rest ih =>
      rw [List.zipIdx_cons, List.findSome?_cons]
      cases known : first.badge? app with
      | some badge => exact .inl ⟨0, first, badge, rfl, known, fun j l below => absurd below (Nat.not_lt_zero j), rfl⟩
      | none =>
          simp only [Option.map_none]
          rcases ih (n + 1) with ⟨i, l, badge, place, found, before, located⟩ | ⟨absent, located⟩
          · refine .inl ⟨i + 1, l, badge, place, found, fun j l' below place' => ?_, ?_⟩
            · cases j with
              | zero =>
                  cases place'
                  exact known
              | succ j => exact before j l' (Nat.lt_of_succ_lt_succ below) place'
            · rw [located, Nat.add_assoc, Nat.add_comm 1 i]
          · refine .inr ⟨fun j l place => ?_, located⟩
            cases j with
            | zero =>
                cases place
                exact known
            | succ j => exact absent j l place

theorem locate_hosts (h : Hub) (app : AppId) :
    (∃ i badge, h.locate app = some (i, badge) ∧ h.Hosts app i badge) ∨ h.locate app = none ∧ h.Nowhere app := by
  have within : ∀ {j l}, (h.loops.take h.registered)[j]? = some l ↔ j < h.registered ∧ h.loops[j]? = some l := by
    intro j l
    rw [List.getElem?_take]
    split
    · next below => exact ⟨fun place => ⟨below, place⟩, And.right⟩
    · next beyond => exact ⟨fun place => (nomatch place), fun known => absurd known.1 beyond⟩
  rcases located_from app (h.loops.take h.registered) 0 with ⟨i, l, badge, place, found, before, located⟩ | ⟨absent, located⟩
  · obtain ⟨below, here⟩ := within.mp place
    rw [Nat.zero_add] at located
    exact .inl ⟨i, badge, located, below, ⟨l, here, found⟩,
      fun j l' earlier place' => before j l' earlier (within.mpr ⟨Nat.lt_trans earlier below, place'⟩)⟩
  · exact .inr ⟨located, fun j l below place => absent j l (within.mpr ⟨below, place⟩)⟩

theorem hosts_one (h : Hub) (app : AppId) (i j : Nat) (badge other : Badge) (hosts : h.Hosts app i badge)
    (hosts' : h.Hosts app j other) : i = j ∧ badge = other := by
  obtain ⟨-, ⟨l, place, known⟩, first⟩ := hosts
  obtain ⟨-, ⟨l', place', known'⟩, first'⟩ := hosts'
  rcases Nat.lt_trichotomy i j with below | rfl | above
  · cases known.symm.trans (first' i l below place)
  · cases place.symm.trans place'
    exact ⟨rfl, Option.some.inj (known.symm.trans known')⟩
  · cases known'.symm.trans (first j l' above place')

theorem hosts_located (h : Hub) (app : AppId) (i : Nat) (badge : Badge) (hosts : h.Hosts app i badge) :
    h.locate app = some (i, badge) := by
  rcases h.locate_hosts app with ⟨j, other, located, hosts'⟩ | ⟨-, nowhere⟩
  · obtain ⟨rfl, rfl⟩ := h.hosts_one app i j badge other hosts hosts'
    exact located
  · obtain ⟨registered, ⟨l, place, known⟩, -⟩ := hosts
    cases known.symm.trans (nowhere i l registered place)

theorem nowhere_located (h : Hub) (app : AppId) (nowhere : h.Nowhere app) : h.locate app = none := by
  rcases h.locate_hosts app with ⟨i, badge, -, registered, ⟨l, place, known⟩, -⟩ | ⟨located, -⟩
  · cases known.symm.trans (nowhere i l registered place)
  · exact located

theorem home_hosts (h : Hub) (app : AppId) :
    (∃ badge, h.Hosts app (h.home app) badge) ∨ h.home app = 0 ∧ h.Nowhere app := by
  rcases h.locate_hosts app with ⟨i, badge, located, hosts⟩ | ⟨located, nowhere⟩
  · rw [home, located]
    exact .inl ⟨badge, hosts⟩
  · rw [home, located]
    exact .inr ⟨rfl, nowhere⟩

def bearings (h : Hub) : Bearings where
  settings := h.relay.map (·.settings)
  registered := h.registered
  owners := h.loops.map (·.owner)
  thread := h.thread
  returns := h.history.filter Happening.returns

theorem bearings_record (h : Hub) (x : Happening) (plain : x.returns = false) : (h.record x).bearings = h.bearings := by
  simp [bearings, record, plain]

theorem bearings_relay (h : Hub) (r next : Relay) (relay : h.relay = some r) (settings : next.settings = r.settings) :
    ({ h with relay := some next } : Hub).bearings = h.bearings := by
  simp only [bearings, relay, Option.map_some, settings]

theorem bearings_onRelay (h : Hub) (f : Relay → Relay) (keeps : ∀ r, (f r).settings = r.settings) :
    (h.onRelay f).bearings = h.bearings := by
  simp only [bearings, onRelay, Option.map_map]
  congr 2
  exact funext keeps

theorem bearings_count (h : Hub) (f : RelayTally → RelayTally) : (h.count f).bearings = h.bearings :=
  bearings_onRelay h _ fun _ => rfl

theorem bearings_passSerial (h : Hub) : h.passSerial.bearings = h.bearings := bearings_onRelay h _ fun _ => rfl

theorem bearings_noteDropped (h : Hub) (callback : Option (FreeCallback Action)) :
    (h.noteDropped callback).bearings = h.bearings := by
  obtain ⟨journal, dropped⟩ := h.noteDropped_cases callback
  rw [dropped]
  rfl

theorem bearings_reclaim (h : Hub) (k : Handle) : (h.reclaim k).bearings = h.bearings := by
  obtain ⟨journal, reclaimed⟩ := h.reclaim_cases k
  rw [reclaimed]
  exact bearings_onRelay h (fun r => { r with pool := r.pool.reclaimed k }) fun _ => rfl

theorem bearings_discard (h : Hub) (e : Event) : (h.discard e).bearings = h.bearings := by
  unfold discard
  split
  · rfl
  · rfl
  · exact bearings_reclaim h _

theorem bearings_discarded (tasks : List Task) (h : Hub) :
    (tasks.foldl (fun h t => h.discardTask t) h).bearings = h.bearings := by
  induction tasks generalizing h with
  | nil => rfl
  | cons t rest ih =>
      refine (ih (h.discardTask t)).trans ?_
      cases t with
      | event e => exact bearings_discard h e
      | job j => cases j <;> rfl
      | load | unload | stop => rfl

theorem bearings_dropRelay (h : Hub) : h.dropRelay.2.bearings = { h.bearings with settings := none } := by
  obtain ⟨journal, dropped⟩ := h.dropRelay_cases
  rw [dropped]
  rfl

theorem owners_set (loops : List RunLoop) (i : Nat) (l next : RunLoop) (place : loops[i]? = some l)
    (same : next.owner = l.owner) : (loops.set i next).map (·.owner) = loops.map (·.owner) := by
  have bound : i < loops.length := (List.getElem?_eq_some_iff.mp place).1
  refine List.ext_getElem? fun j => ?_
  rw [List.getElem?_map, List.getElem?_map]
  by_cases here : i = j
  · subst here
    rw [List.getElem?_set_self bound, place, Option.map_some, Option.map_some, same]
  · rw [List.getElem?_set_ne here]

theorem bearings_set (h : Hub) (i : Nat) (l next : RunLoop) (place : h.loops[i]? = some l) (same : next.owner = l.owner) :
    ({ h with loops := h.loops.set i next } : Hub).bearings = h.bearings := by
  simp only [bearings, owners_set h.loops i l next place same]

theorem bearings_modify (h : Hub) (i : Nat) (f : RunLoop → RunLoop) (same : ∀ l, (f l).owner = l.owner) :
    (h.modifyLoop i f).bearings = h.bearings := by
  rcases h.modify_cases i f with ⟨-, unchanged⟩ | ⟨l, place, change⟩
  · rw [unchanged]
  · rw [change]
    exact bearings_set h i l (f l) place (same l)

theorem bearings_enqueue (h next : Hub) (i : Nat) (t : Task) (queued : h.enqueue i t = .ok next) :
    next.bearings = h.bearings := by
  obtain ⟨l, after, place, taken, rfl⟩ := enqueue_cases h next i t queued
  exact bearings_set h i l after place (by rw [RunLoop.enqueue_cases t l after taken])

theorem bearings_requestLoad (h : Hub) (i : Nat) (app : AppId) (permissions : Permissions) (program : Program Action) :
    (h.requestLoad i app permissions program).2.bearings = h.bearings := by
  cases place : h.loops[i]? with
  | none => simp only [requestLoad, place]
  | some l =>
      have issued : (h.issued i app permissions l).bearings = h.bearings :=
        (bearings_record _ _ rfl).trans (bearings_set h i l l.issue.2 place rfl)
      rw [requestLoad_issued h i app permissions program l place]
      split
      · next next queued => exact (bearings_enqueue _ next i _ queued).trans issued
      · exact issued

theorem bearings_requestLoads (h : Hub) (i count : Nat) (app : AppId) (last : Reply) :
    (h.requestLoads i count app last).2.bearings = h.bearings := by
  induction count generalizing h app last with
  | zero => rfl
  | succ count ih => exact (ih _ _ _).trans (bearings_requestLoad h i app Permissions.none .inert)

theorem bearings_attempt (h : Hub) (k : Handle) (parcel : Parcel) : (h.attempt k parcel).2.bearings = h.bearings := by
  rcases attempt_cases h k parcel with
    ⟨-, attempted⟩ | ⟨i, badge, -, ⟨next, queued, attempted⟩ | ⟨failure, -, attempted⟩⟩
  · rw [attempted]
  · rw [attempted]
    exact (bearings_record next _ rfl).trans (bearings_enqueue h next i _ queued)
  · rw [attempted]
    exact bearings_reclaim h k

theorem bearings_retry (h : Hub) (k : Handle) : (h.retry k).2.bearings = h.bearings := by
  unfold retry
  split
  · rfl
  · next parcel _ =>
      have attempted := bearings_attempt h k parcel
      split
      · next after taken =>
          rw [taken] at attempted
          exact (bearings_count after _).trans attempted
      · next after taken =>
          rw [taken] at attempted
          exact (bearings_record after _ rfl).trans attempted
      · next after taken =>
          rw [taken] at attempted
          exact (bearings_record _ _ rfl).trans ((bearings_reclaim _ k).trans ((bearings_count after _).trans attempted))

theorem bearings_lent (h : Hub) (pool : SlotPool Parcel) (r : Relay) (relay : h.relay = some r) :
    (h.lent pool r).bearings = h.bearings :=
  bearings_relay h r _ relay rfl

theorem bearings_route (h : Hub) (r : Relay) (a : Arrival) (relay : h.relay = some r) :
    (h.route a r).2.bearings = h.bearings := by
  rcases route_cases h r a with ⟨failure, refused⟩ | ⟨k, pool, -, routed⟩
  · rw [refused]
  · have attempted := (bearings_attempt (h.lent pool r) k ⟨a.message, none, r.serial⟩).trans (bearings_lent h pool r relay)
    rw [routed]
    split
    · next after taken =>
        rw [taken] at attempted
        exact attempted
    · next after taken =>
        rw [taken] at attempted
        exact attempted
    · next after taken =>
        rw [taken] at attempted
        unfold putOff
        split
        · next next queued => exact (bearings_enqueue after next 0 _ queued).trans attempted
        · exact (bearings_reclaim after k).trans attempted

theorem bearings_receive (h next : Hub) (a : Arrival) (routing : Routing) (received : h.receive a = some (routing, next)) :
    next.bearings = h.bearings := by
  unfold receive at received
  obtain ⟨r, relay, same⟩ := Option.map_eq_some_iff.mp received
  cases same
  exact (bearings_passSerial _).trans ((bearings_record _ _ rfl).trans ((bearings_count _ _).trans (bearings_route h r a relay)))

theorem bearings_retired (h : Hub) (k : Handle) (r : Relay) (relay : h.relay = some r) :
    (h.retired k r).bearings = h.bearings :=
  bearings_relay h r _ relay rfl

theorem bearings_complete (k : Handle) (h : Hub) :
    (h.complete k).outlook = h.outlook ∧
      ((h.complete k).bearings = h.bearings ∨
        ∃ r parcel callback, h.relay = some r ∧ r.pool.live? k = some parcel ∧ parcel.callback = some callback ∧
          (h.complete k).bearings = { h.bearings with
            returns := .completed parcel.serial (.handed (h.home parcel.message.app)) :: h.bearings.returns }) := by
  cases relay : h.relay with
  | none =>
      rw [complete, relay]
      exact ⟨rfl, .inl rfl⟩
  | some r =>
      cases live : r.pool.live? k with
      | none =>
          rw [complete, relay]
          simp only [SlotPool.retire_stale k r.pool live]
          exact ⟨rfl, .inl (bearings_count h _)⟩
      | some parcel =>
          have retired := bearings_retired h k r relay
          rw [complete_live h k r parcel relay live]
          split
          · exact ⟨outlook_reclaim (h.retired k r) k, .inl ((bearings_record _ _ rfl).trans ((bearings_reclaim _ k).trans retired))⟩
          · next callback heard =>
              split
              · next next queued =>
                  have kept := (bearings_enqueue _ next _ _ queued).trans retired
                  refine ⟨(outlook_enqueue_job _ next _ _ queued).1, .inr ⟨r, parcel, callback, rfl, live, heard, ?_⟩⟩
                  rw [← kept]
                  rfl
              · have dropped := (bearings_count ((h.retired k r).note (.freeDropped callback.label))
                  RelayTally.countAbandoned).trans retired
                exact ⟨outlook_reclaim _ k, .inl ((bearings_record _ _ rfl).trans ((bearings_reclaim _ k).trans dropped))⟩

end Hub

def Action.Completes : Action → Prop
  | .send _ | .complete _ | .shutdown | .flush | .uplink _ => True
  | _ => False

namespace Stack

theorem bearings_enqueue (s next : Stack) (i : Nat) (t : Task) (queued : s.enqueue i t = .ok next) :
    next.hub.bearings = s.hub.bearings := by
  unfold enqueue at queued
  split at queued
  · next hub taken =>
      cases queued
      exact Hub.bearings_enqueue s.hub hub i t taken
  · cases queued

theorem bearings_endCycle (s : Stack) : s.endCycle.hub.bearings = s.hub.bearings := Hub.bearings_onRelay s.hub _ fun _ => rfl

theorem bearings_ifLoop (i : Nat) (f : RunLoop → Reply × Stack) (s : Stack)
    (each : ∀ l, (f l).2.hub.bearings = s.hub.bearings) : (s.ifLoop i f).2.hub.bearings = s.hub.bearings :=
  s.ifLoop_keeps (·.hub.bearings = s.hub.bearings) i f rfl fun l _ => each l

theorem bearings_ifRelay (f : Stack → Reply × Stack) (s : Stack) (each : (f s).2.hub.bearings = s.hub.bearings) :
    (s.ifRelay f).2.hub.bearings = s.hub.bearings :=
  s.ifRelay_keeps (·.hub.bearings = s.hub.bearings) f rfl each

theorem bearings_act (a : Action) (s : Stack) (aside : ¬a.Completes) : (s.act a).2.hub.bearings = s.hub.bearings := by
  cases a with
  | send | complete | shutdown | flush | uplink => exact absurd trivial aside
  | load i app permissions program =>
      exact bearings_ifLoop i _ s fun _ => Hub.bearings_requestLoad s.hub i app permissions program
  | loadMany i app count => exact bearings_ifLoop i _ s fun _ => Hub.bearings_requestLoads s.hub i count app .done
  | unload i app =>
      refine bearings_ifLoop i _ s fun _ => ?_
      split
      · next next queued => exact bearings_enqueue s next i _ queued
      · rfl
  | find i app => exact bearings_ifLoop i _ s fun _ => rfl
  | grab i app name =>
      refine bearings_ifLoop i _ s fun _ => ?_
      split <;> rfl
  | enrol | wake => rfl
  | post i event =>
      refine bearings_ifLoop i _ s fun _ => ?_
      split
      · next next queued => exact bearings_enqueue s next i _ queued
      · exact Hub.bearings_discard s.hub event
  | defer i label script =>
      refine bearings_ifLoop i _ s fun _ => ?_
      split
      · next next queued => exact bearings_enqueue s next i _ queued
      · rfl
  | stop i elsewhere => exact bearings_ifLoop i _ s fun _ => Hub.bearings_modify s.hub i _ fun l => l.owner_stop _
  | retry r =>
      refine bearings_ifRelay _ s ?_
      split
      · rfl
      · next k _ => exact Hub.bearings_retry s.hub k
  | deliver arrival viaLink =>
      simp only [act]
      split
      · next routing hub received => exact Hub.bearings_receive s.hub hub arrival routing received
      · rfl
  | resetClaim => exact bearings_ifRelay _ s (bearings_endCycle s)
  | suspend =>
      simp only [act]
      split
      · exact bearings_endCycle _
      · rfl
  | puppet call =>
      simp only [act]
      split
      · rfl
      · cases call <;> rfl
  | malformed toRelay =>
      simp only [act]
      split
      · exact bearings_ifRelay _ s rfl
      · rfl

theorem bearings_next (i : Nat) (t : Task) (s next : Stack) (taken : s.next? i = some (t, next)) :
    next.hub.bearings = s.hub.bearings := by
  obtain ⟨l, queue, place, -, rfl⟩ := next_cases i t s next taken
  exact Hub.bearings_set s.hub i l _ place rfl

theorem bearings_dropEvent (i : Nat) (e : Event) (s : Stack) : (s.dropEvent i e).hub.bearings = s.hub.bearings :=
  (Hub.bearings_discard _ e).trans ((Hub.bearings_record _ (.drained i e) rfl).trans (Hub.bearings_modify s.hub i _ fun _ => rfl))

theorem bearings_startTask (i : Nat) (t : Task) (s : Stack) (other : ∀ k n callback payload, t ≠ .job (.handBack k n callback payload)) :
    (s.startTask i t).2.2.hub.bearings = s.hub.bearings := by
  have modified : ∀ (f : RunLoop → RunLoop) (s : Stack), (∀ l, (f l).owner = l.owner) →
      (s.modifyLoop i f).hub.bearings = s.hub.bearings := fun f s same => Hub.bearings_modify s.hub i f same
  cases t with
  | event e =>
      have freed := modified RunLoop.freeEvent s fun _ => rfl
      simp only [startTask, startEvent]
      split
      · have counted := (modified RunLoop.countDropped (s.modifyLoop i RunLoop.freeEvent) fun _ => rfl).trans freed
        exact (Hub.bearings_discard _ e).trans ((Hub.bearings_record _ (.missed i e) rfl).trans counted)
      · next badge program _ =>
          have set := (modified (·.setProgram badge.inst program.nextScript.2) (s.modifyLoop i RunLoop.freeEvent)
            fun _ => rfl).trans freed
          refine (Hub.bearings_record _ (.passed i badge e) rfl).trans (Eq.trans ?_ set)
          cases program <;> rfl
  | job j =>
      cases j with
      | user => rfl
      | handBack k n callback payload => exact absurd rfl (other k n callback payload)
      | retry k n => exact Hub.bearings_retry s.hub k
  | load badge program =>
      simp only [startTask, startLoad]
      split
      · rfl
      · unfold noteStart
        split <;> rfl
  | unload app =>
      have struck := modified (·.strike app) s fun _ => rfl
      simp only [startTask, startUnload]
      split
      · rfl
      · next badge _ =>
          split
          · exact struck
          · next a _ =>
              have evicted := (modified (·.evict badge.inst) (s.modifyLoop i (·.strike app)) fun _ => rfl).trans struck
              unfold noteEnd
              split <;> exact evicted
  | stop => rfl

theorem bearings_finishTask (i : Nat) (rest : Epilogue) (s : Stack) :
    (s.finishTask i rest).hub.bearings = s.hub.bearings := by
  cases rest with
  | nothing => rfl
  | countJob => exact Hub.bearings_modify s.hub i _ fun _ => rfl
  | install badge program =>
      simp only [finishTask]
      split
      · exact Hub.bearings_modify s.hub i _ fun _ => rfl
      · rfl
  | consume e => exact (Hub.bearings_discard _ e).trans (Hub.bearings_modify s.hub i _ fun _ => rfl)
  | giveBack k =>
      refine (Hub.bearings_modify _ i RunLoop.countJob fun _ => rfl).trans ?_
      exact (Hub.bearings_reclaim _ k).trans (Hub.bearings_count s.hub _)

theorem bearings_dropTask (i : Nat) (s : Stack) : (s.dropTask i).hub.bearings = s.hub.bearings := by
  unfold dropTask
  split
  · rfl
  · rfl
  · next e next taken => exact (bearings_dropEvent i e next).trans (bearings_next i _ s next taken)
  · next t next _ _ taken => exact bearings_next i t s next taken

theorem bearings_dropLoop (i : Nat) (s : Stack) : (s.dropLoop i).hub.bearings = s.hub.bearings :=
  (Hub.bearings_discarded _ _).trans (Hub.bearings_modify s.hub i _ fun _ => rfl)

theorem bearings_reject (failure : SendFailure) (payload : Payload) (s : Stack) :
    (s.reject failure payload).2.hub.bearings = s.hub.bearings := Hub.bearings_count s.hub _

theorem bearings_credit (badge : Badge) (woke : Bool) (s : Stack) :
    (s.credit badge woke).hub.bearings = s.hub.bearings := by
  unfold credit
  split
  · rfl
  · next r relay => exact Hub.bearings_relay s.hub r _ relay rfl

end Stack

end HubRelay
