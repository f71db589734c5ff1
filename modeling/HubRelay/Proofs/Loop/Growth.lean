import HubRelay.Proofs.Loop.Stages
import HubRelay.Proofs.Relay.Instances
import HubRelay.Proofs.Relay.Requests

/-! What others do to a loop, whatever they call: tasks are queued behind those that wait, instance ids are
spent, and a stop may be asked for. Nothing else of the loop changes. -/

set_option autoImplicit false

namespace HubRelay

namespace Happening

def loop? : Happening → Option Nat
  | .passed i _ _ | .missed i _ | .drained i _ | .requested i _ => some i
  | _ => none

def passing? (i : Nat) : Happening → Option Event
  | .passed j _ e => if j = i then some e else none
  | _ => none

def missing? (i : Nat) : Happening → Option Event
  | .missed j e => if j = i then some e else none
  | _ => none

def draining? (i : Nat) : Happening → Option Event
  | .drained j e => if j = i then some e else none
  | _ => none

theorem elsewhere (i : Nat) (x : Happening) (other : x.loop? ≠ some i) :
    x.passing? i = none ∧ x.missing? i = none ∧ x.draining? i = none ∧ ∀ badge, x ≠ .requested i badge := by
  cases x <;> simp_all [loop?, passing?, missing?, draining?]

end Happening

def passings (i : Nat) (history : List Happening) : List Event := history.filterMap (Happening.passing? i)

def missings (i : Nat) (history : List Happening) : List Event := history.filterMap (Happening.missing? i)

def drainings (i : Nat) (history : List Happening) : List Event := history.filterMap (Happening.draining? i)

def Hub.callsOn (i : Nat) (h : Hub) : List Upcall :=
  (h.calls.filterMap fun x => if x.1 = i then some x.2 else none).reverse

theorem Hub.callsOn_call (i : Nat) (x : Upcall) (h : Hub) : (h.call i x).callsOn i = h.callsOn i ++ [x] := by
  simp [callsOn, call]

theorem Hub.callsOn_apart (i j : Nat) (x : Upcall) (h : Hub) (apart : j ≠ i) : (h.call j x).callsOn i = h.callsOn i := by
  simp [callsOn, call, apart]

def Log.accept (t : Task) (log : Log) : Log := { log with accepted := log.accepted ++ [t] }

-- One loop, with what is under way on it and what happened to it so far.
structure Seat where
  loop : RunLoop
  hand : Multiset Epilogue
  requested : List Badge
  passed : List Event
  missed : List Event
  drained : List Event
  calls : List Upcall
  log : Log

namespace Seat

inductive Grow : Seat → Seat → Prop
  | steer {s : Seat} (owner : Option Thread) (stopRequested : Bool) :
      Grow s { s with loop := { s.loop with owner := owner, stopRequested := stopRequested } }
  | halt {s : Seat} (attached : s.loop.attached = true) :
      Grow s { s with loop := { s.loop with queue := s.loop.queue.push .stop }, log := s.log.accept .stop }
  | accept {s : Seat} (t : Task) (l : RunLoop) (plain : ¬t.IsLoad) (taken : s.loop.enqueue t = .ok l) :
      Grow s { s with loop := l, log := s.log.accept t }
  -- An instance id is spent, though the load is refused.
  | request {s : Seat} (badge : Badge) (issued : badge.inst = s.loop.issue.1) :
      Grow s { s with loop := s.loop.issue.2, requested := badge :: s.requested }
  | load {s : Seat} (badge : Badge) (program : Program Action) (l : RunLoop) (issued : badge.inst = s.loop.issue.1)
      (taken : s.loop.issue.2.enqueue (.load badge program) = .ok l) :
      Grow s { s with loop := l, requested := badge :: s.requested, log := s.log.accept (.load badge program) }

abbrev Grows : Seat → Seat → Prop := Relation.ReflTransGen Grow

structure Shows (i : Nat) (h : Hub) (s : Seat) : Prop where
  place : h.loops[i]? = some s.loop
  requested : requests i h.history = s.requested
  passed : passings i h.history = s.passed
  missed : missings i h.history = s.missed
  drained : drainings i h.history = s.drained
  calls : h.callsOn i = s.calls

theorem shows_record (i : Nat) (h : Hub) (s : Seat) (x : Happening) (other : x.loop? ≠ some i) (shows : s.Shows i h) :
    s.Shows i (h.record x) := by
  obtain ⟨passing, missing, draining, requested⟩ := x.elsewhere i other
  exact ⟨shows.place, (requests_none i x _ requested).trans shows.requested,
    (List.filterMap_cons_none passing).trans shows.passed, (List.filterMap_cons_none missing).trans shows.missed,
    (List.filterMap_cons_none draining).trans shows.drained, shows.calls⟩

theorem shows_same (i : Nat) (h h' : Hub) (s : Seat) (shows : s.Shows i h) (loop : h'.loops[i]? = h.loops[i]?)
    (history : h'.history = h.history) (calls : h'.calls = h.calls) : s.Shows i h' := by
  obtain ⟨place, requested, passed, missed, drained, called⟩ := shows
  exact ⟨loop.trans place, by rwa [history], by rwa [history], by rwa [history], by rwa [history],
    by rwa [Hub.callsOn, calls]⟩

end Seat

namespace Hub

def Grows (i : Nat) (h h' : Hub) : Prop := ∀ s : Seat, s.Shows i h → ∃ s', s'.Shows i h' ∧ s.Grows s'

variable (i : Nat) (past : Hub)

theorem grows_refl : past.Grows i past := fun s shows => ⟨s, shows, .refl⟩

theorem grows_same (h h' : Hub) (grown : past.Grows i h) (loop : h'.loops[i]? = h.loops[i]?)
    (history : h'.history = h.history) (calls : h'.calls = h.calls) : past.Grows i h' := by
  intro s shows
  obtain ⟨s', shows', grows⟩ := grown s shows
  exact ⟨s', s'.shows_same i h h' shows' loop history calls, grows⟩

theorem grows_record (h : Hub) (x : Happening) (grown : past.Grows i h) (other : x.loop? ≠ some i) :
    past.Grows i (h.record x) := by
  intro s shows
  obtain ⟨s', shows', grows⟩ := grown s shows
  exact ⟨s', s'.shows_record i h x other shows', grows⟩

theorem grows_call (h : Hub) (j : Nat) (x : Upcall) (grown : past.Grows i h) (apart : j ≠ i) : past.Grows i (h.call j x) := by
  intro s shows
  obtain ⟨s', shows', grows⟩ := grown s shows
  exact ⟨s', ⟨shows'.place, shows'.requested, shows'.passed, shows'.missed, shows'.drained,
    (h.callsOn_apart i j x apart).trans shows'.calls⟩, grows⟩

theorem grows_step (h : Hub) (l next : RunLoop) (grown : past.Grows i h) (place : h.loops[i]? = some l)
    (step : ∀ s : Seat, s.loop = l → ∃ log, s.Grow { s with loop := next, log := log }) :
    past.Grows i { h with loops := h.loops.set i next } := by
  intro s shows
  obtain ⟨s', shows', grows⟩ := grown s shows
  obtain ⟨log, more⟩ := step s' (Option.some.inj (shows'.place.symm.trans place))
  refine ⟨{ s' with loop := next, log := log }, ⟨?_, shows'.requested, shows'.passed, shows'.missed, shows'.drained, shows'.calls⟩,
    grows.tail more⟩
  exact List.getElem?_set_self (List.getElem?_eq_some_iff.mp place).1

theorem grows_modify (h : Hub) (j : Nat) (f : RunLoop → RunLoop) (grown : past.Grows i h) (apart : j ≠ i) :
    past.Grows i (h.modifyLoop j f) :=
  grows_same i past h _ grown (List.getElem?_modify_ne f h.loops apart) rfl rfl

theorem grows_set (h : Hub) (j : Nat) (l : RunLoop) (grown : past.Grows i h) (apart : j ≠ i) :
    past.Grows i { h with loops := h.loops.set j l } :=
  grows_same i past h _ grown (List.getElem?_set_ne apart) rfl rfl

theorem grows_enqueue (h next : Hub) (j : Nat) (t : Task) (grown : past.Grows i h) (plain : ¬t.IsLoad)
    (queued : h.enqueue j t = .ok next) : past.Grows i next := by
  obtain ⟨l, after, place, taken, rfl⟩ := enqueue_cases h next j t queued
  by_cases here : j = i
  · subst here
    refine grows_step j past h l after grown place fun s same => ?_
    subst same
    exact ⟨_, .accept t after plain taken⟩
  · exact grows_set i past h j after grown here

theorem grows_stop (h : Hub) (j : Nat) (caller : Option Thread) (grown : past.Grows i h) :
    past.Grows i (h.modifyLoop j (·.stop caller)) := by
  by_cases here : j = i
  · subst here
    rcases h.modify_cases j (·.stop caller) with ⟨-, same⟩ | ⟨l, place, change⟩
    · rwa [same]
    · rw [change]
      refine grows_step j past h l _ grown place fun s same => ?_
      subst same
      unfold RunLoop.stop
      split
      · exact ⟨s.log, .steer s.loop.owner true⟩
      · split
        · next attached => exact ⟨_, .halt attached⟩
        · exact ⟨s.log, .steer s.loop.owner s.loop.stopRequested⟩
  · exact grows_modify i past h j _ grown here

theorem grows_occupy (h : Hub) (j : Nat) (thread : Thread) (grown : past.Grows i h) :
    past.Grows i (h.modifyLoop j (·.occupy thread)) := by
  by_cases here : j = i
  · subst here
    rcases h.modify_cases j (·.occupy thread) with ⟨-, same⟩ | ⟨l, place, change⟩
    · rwa [same]
    · rw [change]
      refine grows_step j past h l _ grown place fun s same => ?_
      subst same
      exact ⟨s.log, .steer (some thread) s.loop.stopRequested⟩
  · exact grows_modify i past h j _ grown here

theorem grows_noteDropped (h : Hub) (callback : Option (FreeCallback Action)) (grown : past.Grows i h) :
    past.Grows i (h.noteDropped callback) := by
  obtain ⟨journal, dropped⟩ := h.noteDropped_cases callback
  rw [dropped]
  exact grows_same i past h _ grown rfl rfl rfl

theorem grows_reclaim (h : Hub) (k : Handle) (grown : past.Grows i h) : past.Grows i (h.reclaim k) := by
  obtain ⟨journal, reclaimed⟩ := h.reclaim_cases k
  rw [reclaimed]
  exact grows_same i past h _ grown rfl rfl rfl

theorem grows_discard (h : Hub) (e : Event) (grown : past.Grows i h) : past.Grows i (h.discard e) := by
  unfold discard
  split
  · exact grown
  · exact grows_same i past h _ grown rfl rfl rfl
  · exact grows_reclaim i past h _ grown

theorem grows_complete (k : Handle) (h : Hub) (grown : past.Grows i h) : past.Grows i (h.complete k) := by
  unfold complete
  split
  · exact grown
  · next r relay =>
      split
      · exact grows_same i past h _ grown rfl rfl rfl
      · next parcel pool taken =>
          have retired : past.Grows i { h with relay := some { r with pool := pool, tally := r.tally.countCompletion } } :=
            grows_same i past h _ grown rfl rfl rfl
          simp only
          split
          · exact grows_record i past _ _ (grows_reclaim i past _ k retired) nofun
          · split
            · next next queued => exact grows_record i past next _ (grows_enqueue i past _ next _ _ retired id queued) nofun
            · exact grows_record i past _ _ (grows_reclaim i past _ k (grows_same i past _ _ retired rfl rfl rfl)) nofun

theorem grows_attempt (h : Hub) (k : Handle) (parcel : Parcel) (grown : past.Grows i h) :
    past.Grows i (h.attempt k parcel).2 := by
  rcases attempt_cases h k parcel with ⟨-, unknown⟩ | ⟨j, badge, -, ⟨next, queued, posted⟩ | ⟨failure, -, refused⟩⟩
  · rwa [unknown]
  · rw [posted]
    exact grows_record i past next _ (grows_enqueue i past h next j _ grown id queued) nofun
  · rw [refused]
    exact grows_reclaim i past h k grown

theorem grows_route (h : Hub) (a : Arrival) (r : Relay) (grown : past.Grows i h) : past.Grows i (h.route a r).2 := by
  rcases route_cases h r a with ⟨failure, rejected⟩ | ⟨k, pool, -, routed⟩
  · rwa [rejected]
  · have tried := grows_attempt i past _ k ⟨a.message, none, r.serial⟩ (grows_same i past h (h.lent pool r) grown rfl rfl rfl)
    rw [routed]
    split
    · next after attempted => rwa [attempted] at tried
    · next after attempted => rwa [attempted] at tried
    · next after attempted =>
        rw [attempted] at tried
        unfold putOff
        split
        · next next queued => exact grows_enqueue i past after next 0 _ tried id queued
        · exact grows_reclaim i past after k tried

theorem grows_receive (h next : Hub) (a : Arrival) (routing : Routing) (grown : past.Grows i h)
    (received : h.receive a = some (routing, next)) : past.Grows i next := by
  obtain ⟨r, -, equal⟩ := Option.map_eq_some_iff.mp received
  cases equal
  have counted : past.Grows i ((h.route a r).2.count (RelayTally.countRouting (h.route a r).1)) :=
    grows_same i past _ _ (grows_route i past h a r grown) rfl rfl rfl
  have told := grows_record i past _ (.arrived r.serial a (h.route a r).1) counted nofun
  exact grows_same i past _ _ told rfl rfl rfl

theorem grows_retry (h : Hub) (k : Handle) (grown : past.Grows i h) : past.Grows i (h.retry k).2 := by
  unfold retry
  split
  · exact grown
  · next parcel _ =>
      have tried := grows_attempt i past h k parcel grown
      split
      · next after attempted =>
          rw [attempted] at tried
          exact grows_same i past after _ tried rfl rfl rfl
      · next after attempted =>
          rw [attempted] at tried
          exact grows_record i past after _ tried nofun
      · next after attempted =>
          rw [attempted] at tried
          exact grows_record i past _ _ (grows_reclaim i past _ k (grows_same i past after _ tried rfl rfl rfl)) nofun

theorem grows_dropRelay (h : Hub) (grown : past.Grows i h) : past.Grows i h.dropRelay.2 := by
  obtain ⟨journal, dropped⟩ := h.dropRelay_cases
  rw [dropped]
  exact grows_same i past h _ grown rfl rfl rfl

theorem grows_requestLoad (h : Hub) (j : Nat) (app : AppId) (permissions : Permissions) (program : Program Action)
    (grown : past.Grows i h) : past.Grows i (h.requestLoad j app permissions program).2 := by
  cases place : h.loops[j]? with
  | none =>
      simp only [requestLoad, place]
      exact grown
  | some l =>
      rw [requestLoad_issued h j app permissions program l place]
      by_cases here : j = i
      · subst here
        intro s shows
        obtain ⟨s', shows', grows⟩ := grown s shows
        have same : s'.loop = l := Option.some.inj (shows'.place.symm.trans place)
        subst same
        have spot : (h.issued j app permissions s'.loop).loops[j]? = some s'.loop.issue.2 :=
          List.getElem?_set_self (List.getElem?_eq_some_iff.mp place).1
        have told : requests j (h.issued j app permissions s'.loop).history =
            h.badgeFor app permissions s'.loop :: s'.requested := by
          rw [← shows'.requested]
          exact requests_cons j _ _
        split
        · next next queued =>
            obtain ⟨l', after, place', taken, rfl⟩ := enqueue_cases _ next j _ queued
            rw [spot] at place'
            cases place'
            have set := List.getElem?_set_self (a := after) (List.getElem?_eq_some_iff.mp spot).1
            have loaded := Seat.Grow.load (h.badgeFor app permissions s'.loop) program after rfl taken
            refine ⟨_, ?_, grows.tail loaded⟩
            exact ⟨set, told, shows'.passed, shows'.missed, shows'.drained, shows'.calls⟩
        · have spent := Seat.Grow.request (s := s') (h.badgeFor app permissions s'.loop) rfl
          refine ⟨_, ?_, grows.tail spent⟩
          exact ⟨spot, told, shows'.passed, shows'.missed, shows'.drained, shows'.calls⟩
      · have set := grows_same i past h { h with loops := h.loops.set j l.issue.2, ledger := h.ledger.openRow.2 } grown
          (List.getElem?_set_ne here) rfl rfl
        have issued : past.Grows i (h.issued j app permissions l) :=
          grows_record i past _ _ set (by simpa [Happening.loop?] using here)
        split
        · next next queued =>
            obtain ⟨l', after, -, -, rfl⟩ := enqueue_cases _ next j _ queued
            exact grows_set i past _ j after issued here
        · exact issued

theorem grows_requestLoads (h : Hub) (j count : Nat) (app : AppId) (last : Reply) (grown : past.Grows i h) :
    past.Grows i (h.requestLoads j count app last).2 := by
  induction count generalizing h app last with
  | zero => exact grown
  | succ count ih => exact ih _ _ _ (grows_requestLoad i past h j app Permissions.none .inert grown)

end Hub

namespace Stack

variable (i : Nat) (past : Hub)

theorem grows_offer (m : Outgoing) (s : Stack) (grown : past.Grows i s.hub) : past.Grows i (s.offer m).2.hub := by
  have completed : ∀ (handles : List Handle) (h : Hub), past.Grows i h →
      past.Grows i (handles.foldl (fun h k => h.complete k) h) := by
    intro handles
    induction handles with
    | nil => exact fun h grown => grown
    | cons k rest ih => exact fun h grown => ih _ (Hub.grows_complete i past k h grown)
  unfold offer
  split
  · exact grown
  · next p _ =>
      simp only
      split <;> exact completed _ _ grown

theorem grows_sendAs (badge : Badge) (d : Dispatch Action) (r : Relay) (s : Stack) (grown : past.Grows i s.hub) :
    past.Grows i (s.sendAs badge d r).2.hub := by
  rcases sendAs_cases badge d s r with ⟨failure, refused⟩ | ⟨woke, k, pool, -, answered⟩
  · rw [refused]
    exact Hub.grows_same i past _ _ (Hub.grows_noteDropped i past s.hub d.free grown) rfl rfl rfl
  · have offered := grows_offer i past ⟨k, d.message badge woke⟩ (s.onHub (·.lent pool r))
      (Hub.grows_same i past s.hub _ grown rfl rfl rfl)
    rw [answered]
    split
    · next after taken =>
        rw [taken] at offered
        unfold credit
        split
        · exact offered
        · exact Hub.grows_same i past after.hub _ offered rfl rfl rfl
    · next after taken =>
        rw [taken] at offered
        rw [withdraw_cases]
        exact Hub.grows_same i past _ _ (Hub.grows_reclaim i past after.hub k offered) rfl rfl rfl

theorem grows_send (d : Dispatch Action) (s : Stack) (grown : past.Grows i s.hub) : past.Grows i (s.send d).2.hub := by
  rcases send_cases d s with same | ⟨r, badge, labels, -, sent⟩
  · rwa [same]
  · have told := Hub.grows_record i past _ (.offered r.serial badge d (s.sendAs badge d r).1)
      (grows_sendAs i past badge d r s grown) nofun
    rw [sent]
    exact Hub.grows_same i past _ _ told rfl rfl rfl

theorem grows_haul (s : Stack) (grown : past.Grows i s.hub) : past.Grows i s.haul.hub := by
  unfold haul
  split
  · next u _ => exact Uplink.haul_keeps Hub.complete (past.Grows i) (Hub.grows_complete i past) u s.hub grown
  · exact grown

theorem grows_flush (s : Stack) (grown : past.Grows i s.hub) : past.Grows i s.flush.2.hub := by
  unfold flush
  split
  · next u _ => exact Uplink.haul_keeps Hub.complete (past.Grows i) (Hub.grows_complete i past) u s.hub grown
  · exact grown

theorem grows_shutdown (s : Stack) (grown : past.Grows i s.hub) : past.Grows i s.shutdown.hub := by
  unfold shutdown
  split
  · next u _ => exact Uplink.shutdown_keeps Hub.complete (past.Grows i) (Hub.grows_complete i past) u s.hub grown
  · exact grown

theorem grows_uplink (c : UplinkCall) (u : Uplink) (s : Stack) (grown : past.Grows i s.hub) :
    past.Grows i (s.onUplink c u).2.hub := by
  cases c with
  | start =>
      simp only [onUplink]
      split <;> exact grown
  | pump limit => exact Uplink.pump_keeps Hub.complete (past.Grows i) (Hub.grows_complete i past) limit u s.hub grown
  | pause | resume | spoil | takeReceived => exact grown

theorem grows_enqueue (s next : Stack) (j : Nat) (t : Task) (grown : past.Grows i s.hub) (plain : ¬t.IsLoad)
    (queued : s.enqueue j t = .ok next) : past.Grows i next.hub := by
  unfold enqueue at queued
  split at queued
  · next hub taken =>
      cases queued
      exact Hub.grows_enqueue i past s.hub hub j t grown plain taken
  · cases queued

theorem grows_ifLoop (j : Nat) (f : RunLoop → Reply × Stack) (s : Stack) (grown : past.Grows i s.hub)
    (each : ∀ l, past.Grows i (f l).2.hub) : past.Grows i (s.ifLoop j f).2.hub :=
  s.ifLoop_keeps (fun s' => past.Grows i s'.hub) j f grown fun l _ => each l

theorem grows_ifRelay (f : Stack → Reply × Stack) (s : Stack) (grown : past.Grows i s.hub)
    (each : past.Grows i (f s).2.hub) : past.Grows i (s.ifRelay f).2.hub :=
  s.ifRelay_keeps (fun s' => past.Grows i s'.hub) f grown each

theorem grows_ifHandle (r : HandleRef) (f : Handle → Stack → Reply × Stack) (s : Stack) (grown : past.Grows i s.hub)
    (each : ∀ k, past.Grows i (f k s).2.hub) : past.Grows i (s.ifHandle r f).2.hub :=
  s.ifHandle_keeps (fun s' => past.Grows i s'.hub) r f grown each

theorem grows_act (a : Action) (s : Stack) (grown : past.Grows i s.hub) : past.Grows i (s.act a).2.hub := by
  cases a with
  | load j app permissions program =>
      exact grows_ifLoop i past j _ s grown fun _ => Hub.grows_requestLoad i past s.hub j app permissions program grown
  | loadMany j app count =>
      exact grows_ifLoop i past j _ s grown fun _ => Hub.grows_requestLoads i past s.hub j count app .done grown
  | unload j app =>
      refine grows_ifLoop i past j _ s grown fun _ => ?_
      split
      · next next queued => exact grows_enqueue i past s next j _ grown id queued
      · exact grown
  | find j app => exact grows_ifLoop i past j _ s grown fun _ => grown
  | grab j app name =>
      refine grows_ifLoop i past j _ s grown fun _ => ?_
      split <;> exact grown
  | enrol name app inst permissions => exact Hub.grows_same i past s.hub _ grown rfl rfl rfl
  | post j event =>
      refine grows_ifLoop i past j _ s grown fun _ => ?_
      split
      · next next queued => exact grows_enqueue i past s next j _ grown id queued
      · exact Hub.grows_discard i past s.hub event grown
  | defer j label script =>
      refine grows_ifLoop i past j _ s grown fun _ => ?_
      split
      · next next queued => exact grows_enqueue i past s next j _ grown id queued
      · exact Hub.grows_same i past s.hub _ grown rfl rfl rfl
  | stop j elsewhere => exact grows_ifLoop i past j _ s grown fun _ => Hub.grows_stop i past s.hub j _ grown
  | send dispatch => exact grows_send i past dispatch s grown
  | complete r => exact grows_ifHandle i past r _ s grown fun k => Hub.grows_complete i past k s.hub grown
  | retry r => exact grows_ifHandle i past r _ s grown fun k => Hub.grows_retry i past s.hub k grown
  | deliver arrival viaLink =>
      simp only [act]
      split
      · next routing hub received => exact Hub.grows_receive i past s.hub hub arrival routing grown received
      · exact grown
  | resetClaim => exact grows_ifRelay i past _ s grown (Hub.grows_same i past s.hub _ grown rfl rfl rfl)
  | shutdown => exact grows_ifRelay i past _ s grown (grows_shutdown i past s grown)
  | flush => exact grows_ifRelay i past _ s grown (grows_flush i past s grown)
  | suspend =>
      simp only [act]
      split
      · exact Hub.grows_same i past s.hub _ grown rfl rfl rfl
      · exact grown
  | wake => exact grown
  | uplink call =>
      simp only [act]
      split
      · next u _ => exact grows_uplink i past call u s grown
      · exact grown
  | puppet call =>
      simp only [act]
      split
      · exact grown
      · cases call <;> exact grown
  | malformed toRelay =>
      simp only [act]
      split
      · exact grows_ifRelay i past _ s grown grown
      · exact grown

theorem grows_perform (script : Script) (s : Stack) (grown : past.Grows i s.hub) : past.Grows i (s.perform script).hub := by
  induction script generalizing s with
  | nil => exact grown
  | cons a rest ih => exact ih _ (Hub.grows_same i past _ _ (grows_act i past a s grown) rfl rfl rfl)

end Stack

end HubRelay
