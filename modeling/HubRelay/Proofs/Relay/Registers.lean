import HubRelay.Proofs.Relay.Instances
import HubRelay.Proofs.Relay.Requests

/-! What is written down of messages to the host: how many the relay accepted and refused, what each nanoapp answers
for, and who the nanoapps are. Sends change it, loads and enrolments, and the end of a wake cycle. Nothing else does. -/

set_option autoImplicit false

namespace HubRelay

structure Account where
  claim : WakeClaim
  accepted : Nat
  rejected : Nat
  rejectedByLink : Nat

structure Register where
  -- Is `none` once the relay was dropped.
  account : Option Account
  ledger : Ledger
  -- The badges that each loop gave out, latest first.
  requested : Nat → List Badge

def Relay.account (r : Relay) : Account := ⟨r.wakeClaim, r.tally.accepted, r.tally.rejected, r.tally.rejectedByLink⟩

namespace Hub

def register (h : Hub) : Register := ⟨h.relay.map Relay.account, h.ledger, fun i => requests i h.history⟩

theorem register_same (past h : Hub) (account : h.relay.map Relay.account = past.relay.map Relay.account)
    (ledger : h.ledger = past.ledger) (requested : ∀ i, requests i h.history = requests i past.history) :
    h.register = past.register := by
  simp only [register, account, ledger, requested]

theorem register_record (h : Hub) (x : Happening) (plain : ∀ i badge, x ≠ .requested i badge) :
    (h.record x).register = h.register :=
  register_same h _ rfl rfl fun i => requests_none i x h.history (plain i)

theorem register_onRelay (h : Hub) (f : Relay → Relay) (keeps : ∀ r, (f r).account = r.account) :
    (h.onRelay f).register = h.register := by
  refine register_same h _ ?_ rfl fun _ => rfl
  simp only [onRelay, Option.map_map]
  congr 1
  funext r
  exact keeps r

theorem register_passSerial (h : Hub) : h.passSerial.register = h.register := register_onRelay h _ fun _ => rfl

theorem register_noteDropped (h : Hub) (callback : Option (FreeCallback Action)) :
    (h.noteDropped callback).register = h.register := by
  obtain ⟨journal, dropped⟩ := h.noteDropped_cases callback
  rw [dropped]
  rfl

theorem register_reclaim (h : Hub) (k : Handle) : (h.reclaim k).register = h.register := by
  obtain ⟨journal, reclaimed⟩ := h.reclaim_cases k
  rw [reclaimed]
  exact register_onRelay h (fun r => { r with pool := r.pool.reclaimed k }) fun _ => rfl

theorem register_discard (h : Hub) (e : Event) : (h.discard e).register = h.register := by
  unfold discard
  split
  · rfl
  · rfl
  · exact register_reclaim h _

theorem register_discarded (tasks : List Task) (h : Hub) :
    (tasks.foldl (fun h t => h.discardTask t) h).register = h.register := by
  induction tasks generalizing h with
  | nil => rfl
  | cons t rest ih =>
      refine (ih (h.discardTask t)).trans ?_
      cases t with
      | event e => exact register_discard h e
      | job j => cases j <;> rfl
      | load | unload | stop => rfl

theorem register_enqueue (h next : Hub) (i : Nat) (t : Task) (queued : h.enqueue i t = .ok next) :
    next.register = h.register := by
  obtain ⟨l, after, -, -, rfl⟩ := enqueue_cases h next i t queued
  rfl

theorem register_lent (h : Hub) (pool : SlotPool Parcel) (r : Relay) (relay : h.relay = some r) :
    (h.lent pool r).register = h.register := by
  simp only [lent, register, relay]
  rfl

theorem register_complete (k : Handle) (h : Hub) : (h.complete k).register = h.register := by
  cases relay : h.relay with
  | none => rw [complete, relay]
  | some r =>
      cases live : r.pool.live? k with
      | none =>
          rw [complete, relay]
          simp only [SlotPool.retire_stale k r.pool live]
          exact register_onRelay h _ fun _ => rfl
      | some parcel =>
          have retired : (h.retired k r).register = h.register := by
            simp only [Hub.retired, register, relay]
            rfl
          rw [complete_live h k r parcel relay live]
          split
          · exact (register_record _ _ (by simp)).trans ((register_reclaim _ k).trans retired)
          · next callback _ =>
              split
              · next next queued =>
                  exact (register_record _ _ (by simp)).trans ((register_enqueue _ next _ _ queued).trans retired)
              · have dropped : (((h.retired k r).note (.freeDropped callback.label)).count
                    RelayTally.countAbandoned).register = (h.retired k r).register :=
                  register_onRelay ((h.retired k r).note (.freeDropped callback.label)) _ fun _ => rfl
                exact (register_record _ _ (by simp)).trans ((register_reclaim _ k).trans (dropped.trans retired))

theorem register_attempt (h : Hub) (k : Handle) (parcel : Parcel) : (h.attempt k parcel).2.register = h.register := by
  rcases attempt_cases h k parcel with
    ⟨-, attempted⟩ | ⟨i, badge, -, ⟨next, queued, attempted⟩ | ⟨failure, -, attempted⟩⟩
  · rw [attempted]
  · rw [attempted]
    exact (register_record next _ (by nofun)).trans (register_enqueue h next i _ queued)
  · rw [attempted]
    exact register_reclaim h k

theorem register_retry (h : Hub) (k : Handle) : (h.retry k).2.register = h.register := by
  unfold retry
  split
  · rfl
  · next parcel _ =>
      have attempted := register_attempt h k parcel
      split
      · next after taken =>
          rw [taken] at attempted
          have counted : (after.count RelayTally.countDeferredDelivered).register = after.register :=
            register_onRelay after _ fun _ => rfl
          exact counted.trans attempted
      · next after taken =>
          rw [taken] at attempted
          exact (register_record after _ (by nofun)).trans attempted
      · next after taken =>
          rw [taken] at attempted
          have counted : (after.count RelayTally.countUnknown).register = after.register :=
            register_onRelay after _ fun _ => rfl
          exact (register_record _ _ (by nofun)).trans ((register_reclaim _ k).trans (counted.trans attempted))

theorem register_route (h : Hub) (r : Relay) (a : Arrival) (relay : h.relay = some r) :
    (h.route a r).2.register = h.register := by
  rcases route_cases h r a with ⟨failure, refused⟩ | ⟨k, pool, -, routed⟩
  · rw [refused]
  · have attempted := (register_attempt (h.lent pool r) k ⟨a.message, none, r.serial⟩).trans (register_lent h pool r relay)
    rw [routed]
    split
    · next after taken =>
        rw [taken] at attempted
        exact attempted
    · next after taken =>
        rw [taken] at attempted
        exact attempted
    · next after taken =>
        rw [taken] at attempted
        unfold putOff
        split
        · next next queued => exact (register_enqueue after next 0 _ queued).trans attempted
        · exact (register_reclaim after k).trans attempted

theorem register_receive (h next : Hub) (a : Arrival) (routing : Routing) (received : h.receive a = some (routing, next)) :
    next.register = h.register := by
  unfold receive at received
  obtain ⟨r, relay, same⟩ := Option.map_eq_some_iff.mp received
  cases same
  have counted : ((h.route a r).2.count (RelayTally.countRouting (h.route a r).1)).register = (h.route a r).2.register := by
    refine register_onRelay _ _ fun r' => ?_
    cases (h.route a r).1 <;> rfl
  exact (register_passSerial _).trans ((register_record _ _ (by nofun)).trans (counted.trans (register_route h r a relay)))

end Hub

def Action.IsAsideRegister : Action → Prop
  | .send _ | .load _ _ _ _ | .loadMany _ _ _ | .grab _ _ _ | .enrol _ _ _ _ | .resetClaim | .suspend | .wake => False
  | _ => True

structure Books where
  register : Register
  names : List (String × Badge)
  power : HostPower Unit

namespace Stack

def books (s : Stack) : Books := ⟨s.hub.register, s.names, s.power⟩

theorem books_hub (s next : Stack) (register : next.hub.register = s.hub.register) (names : next.names = s.names)
    (power : next.power = s.power) : next.books = s.books := by
  simp only [books, register, names, power]

theorem register_linked (known : Register) (k : Handle) (h : Hub) (same : h.register = known) :
    (h.complete k).register = known :=
  (Hub.register_complete k h).trans same

theorem books_haul (s : Stack) : s.haul.books = s.books := by
  unfold haul
  split
  · next u _ =>
      have kept := Uplink.haul_keeps Hub.complete (·.register = s.hub.register) (register_linked _) u s.hub rfl
      exact books_hub s _ kept rfl rfl
  · rfl

theorem books_flush (s : Stack) : s.flush.2.books = s.books := by
  unfold flush
  split
  · next u _ =>
      have kept := Uplink.haul_keeps Hub.complete (·.register = s.hub.register) (register_linked _) u s.hub rfl
      exact books_hub s _ kept rfl rfl
  · rfl

theorem books_shutdown (s : Stack) : s.shutdown.books = s.books := by
  unfold shutdown
  split
  · next u _ =>
      have kept := Uplink.shutdown_keeps Hub.complete (·.register = s.hub.register) (register_linked _) u s.hub rfl
      exact books_hub s _ kept rfl rfl
  · rfl

theorem books_uplink (c : UplinkCall) (u : Uplink) (s : Stack) : (s.onUplink c u).2.books = s.books := by
  cases c with
  | start =>
      simp only [onUplink]
      split <;> rfl
  | pump limit =>
      have kept := Uplink.pump_keeps Hub.complete (·.register = s.hub.register) (register_linked _) limit u s.hub rfl
      exact books_hub s _ kept rfl rfl
  | pause | resume | spoil | takeReceived => rfl

theorem books_enqueue (s next : Stack) (i : Nat) (t : Task) (queued : s.enqueue i t = .ok next) : next.books = s.books := by
  unfold enqueue at queued
  split at queued
  · next hub taken =>
      cases queued
      exact books_hub s _ (Hub.register_enqueue s.hub hub i t taken) rfl rfl
  · cases queued

theorem books_ifLoop (i : Nat) (f : RunLoop → Reply × Stack) (s : Stack) (each : ∀ l, (f l).2.books = s.books) :
    (s.ifLoop i f).2.books = s.books :=
  s.ifLoop_keeps (·.books = s.books) i f rfl fun l _ => each l

theorem books_ifRelay (f : Stack → Reply × Stack) (s : Stack) (each : (f s).2.books = s.books) :
    (s.ifRelay f).2.books = s.books :=
  s.ifRelay_keeps (·.books = s.books) f rfl each

theorem books_act (a : Action) (s : Stack) (aside : a.IsAsideRegister) : (s.act a).2.books = s.books := by
  cases a with
  | send | load | loadMany | grab | enrol | resetClaim | suspend | wake => exact aside.elim
  | unload i app =>
      refine books_ifLoop i _ s fun _ => ?_
      split
      · next next queued => exact books_enqueue s next i _ queued
      · rfl
  | find i app => exact books_ifLoop i _ s fun _ => rfl
  | post i event =>
      refine books_ifLoop i _ s fun _ => ?_
      split
      · next next queued => exact books_enqueue s next i _ queued
      · exact books_hub s _ (Hub.register_discard s.hub event) rfl rfl
  | defer i label script =>
      refine books_ifLoop i _ s fun _ => ?_
      split
      · next next queued => exact books_enqueue s next i _ queued
      · rfl
  | stop i elsewhere => exact books_ifLoop i _ s fun _ => rfl
  | complete r =>
      refine books_ifRelay _ s ?_
      split
      · rfl
      · next k _ => exact books_hub s _ (Hub.register_complete k s.hub) rfl rfl
  | retry r =>
      refine books_ifRelay _ s ?_
      split
      · rfl
      · next k _ => exact books_hub s _ (Hub.register_retry s.hub k) rfl rfl
  | deliver arrival viaLink =>
      simp only [act]
      split
      · next routing hub received => exact books_hub s _ (Hub.register_receive s.hub hub arrival routing received) rfl rfl
      · rfl
  | shutdown => exact books_ifRelay _ s (books_shutdown s)
  | flush => exact books_ifRelay _ s (books_flush s)
  | uplink call =>
      simp only [act]
      split
      · next u _ => exact books_uplink call u s
      · rfl
  | puppet call =>
      simp only [act]
      split
      · rfl
      · cases call <;> rfl
  | malformed toRelay =>
      simp only [act]
      split
      · exact books_ifRelay _ s rfl
      · rfl

theorem books_next (i : Nat) (t : Task) (s next : Stack) (taken : s.next? i = some (t, next)) : next.books = s.books := by
  obtain ⟨l, queue, -, -, rfl⟩ := next_cases i t s next taken
  rfl

theorem books_dropEvent (i : Nat) (e : Event) (s : Stack) : (s.dropEvent i e).books = s.books :=
  books_hub s _ ((Hub.register_discard _ e).trans (Hub.register_record _ (.drained i e) nofun)) rfl rfl

theorem books_startTask (i : Nat) (t : Task) (s : Stack) : (s.startTask i t).2.2.books = s.books := by
  cases t with
  | event e =>
      simp only [startTask, startEvent]
      split
      · exact books_hub s _ ((Hub.register_discard _ e).trans (Hub.register_record _ (.missed i e) nofun)) rfl rfl
      · next badge program _ =>
          have passed := Hub.register_record (s.modifyLoop i RunLoop.freeEvent).hub (.passed i badge e) nofun
          cases program <;> exact books_hub s _ passed rfl rfl
  | job j =>
      cases j with
      | user => rfl
      | handBack k n callback payload => exact books_hub s _ (Hub.register_record _ (.freed n callback payload) nofun) rfl rfl
      | retry k n => exact books_hub s _ (Hub.register_retry s.hub k) rfl rfl
  | load badge program =>
      simp only [startTask, startLoad]
      split
      · rfl
      · unfold noteStart
        split <;> rfl
  | unload app =>
      simp only [startTask, startUnload]
      split
      · rfl
      · split
        · rfl
        · unfold noteEnd
          split <;> rfl
  | stop => rfl

theorem books_finishTask (i : Nat) (rest : Epilogue) (s : Stack) : (s.finishTask i rest).books = s.books := by
  cases rest with
  | nothing | countJob => rfl
  | install badge program =>
      simp only [finishTask]
      split <;> rfl
  | consume e => exact books_hub s _ (Hub.register_discard _ e) rfl rfl
  | giveBack k =>
      have counted : (s.hub.count RelayTally.countInvoked).register = s.hub.register :=
        Hub.register_onRelay s.hub _ fun _ => rfl
      exact books_hub s _ ((Hub.register_reclaim _ k).trans counted) rfl rfl

theorem books_dropTask (i : Nat) (s : Stack) : (s.dropTask i).books = s.books := by
  unfold dropTask
  split
  · rfl
  · rfl
  · next e next taken => exact (books_dropEvent i e next).trans (books_next i _ s next taken)
  · next t next _ _ taken => exact books_next i t s next taken

theorem books_dropLoop (i : Nat) (s : Stack) : (s.dropLoop i).books = s.books :=
  books_hub s _ (Hub.register_discarded _ _) rfl rfl

end Stack

namespace Scene

theorem books_move (m : Move) (c : Scene) (quiet : ∀ a, m = .act a → a.IsAsideRegister) (kept : m ≠ .dropRelay) :
    (c.move m).stack.books = c.stack.books := by
  cases m with
  | act a => exact Stack.books_act a c.stack (quiet a rfl)
  | haul => exact Stack.books_haul c.stack
  | take i =>
      cases taken : c.stack.next? i with
      | none => simp only [move, take, taken]
      | some found =>
          simp only [move, take, taken]
          exact (Stack.books_startTask i found.1 found.2).trans (Stack.books_next i found.1 c.stack found.2 taken)
  | finish place =>
      simp only [move, finish]
      split
      · rfl
      · exact Stack.books_finishTask _ _ c.stack
  | drop i =>
      simp only [move]
      split
      · exact Stack.books_dropTask i c.stack
      · rfl
  | detach i =>
      simp only [move]
      split <;> rfl
  | quit i place =>
      obtain ⟨journal, calls, left⟩ := Stack.quit_cases i place c.stack
      simp only [move, onStack, left]
      rfl
  | dropRelay => exact absurd rfl kept
  | turn | note | tell | occupy | shut | clearRoster => rfl

end Scene

end HubRelay
