import HubRelay.Drive
import HubRelay.Proofs.Loop.Growth

/-! What a hub carries bounds what its loops can still come to do: an action adds no more than the script that it
stands in carries, and a completion, a release or a refusal adds nothing. -/

set_option autoImplicit false

namespace HubRelay

theorem total_set {α : Type} (f : α → Nat) (as : List α) (i : Nat) (a next : α) (place : as[i]? = some a) :
    total ((as.set i next).map f) + f a = total (as.map f) + f next := by
  induction as generalizing i with
  | nil => cases place
  | cons b rest ih =>
      cases i with
      | zero =>
          cases place
          simp only [List.set_cons_zero, List.map_cons, total_cons]
          omega
      | succ i =>
          have tail := ih i place
          simp only [List.set_cons_succ, List.map_cons, total_cons]
          omega

theorem total_set_le {α : Type} (f : α → Nat) (as : List α) (i : Nat) (next : α) :
    total ((as.set i next).map f) ≤ total (as.map f) + f next := by
  cases place : as[i]? with
  | none =>
      rw [List.set_eq_of_length_le (List.getElem?_eq_none_iff.mp place)]
      exact Nat.le_add_right _ _
  | some a =>
      have change := total_set f as i a next place
      omega

namespace SlotPool

variable {α : Type} (f : α → Nat)

def weigh (s : Slot α) : Nat :=
  match s.state with
  | .live a => f a
  | .vacant | .retiring => 0

theorem total_live (p : SlotPool α) : total (p.liveValues.map f) = total (p.slots.toList.map (weigh f)) := by
  unfold liveValues
  induction p.slots.toList with
  | nil => rfl
  | cons s rest ih =>
      obtain ⟨generation, state⟩ := s
      cases state <;> simp [weigh, ih]

theorem total_allocate (a : α) (p next : SlotPool α) (k : Handle) (allocated : p.allocate a = some (k, next)) :
    total (next.liveValues.map f) ≤ total (p.liveValues.map f) + f a := by
  obtain ⟨slots, free⟩ := p
  cases free with
  | nil => cases allocated
  | cons i free =>
      simp only [allocate, Option.some.injEq, Prod.mk.injEq] at allocated
      obtain ⟨rfl, rfl⟩ := allocated
      rw [total_live, total_live, Array.toList_setIfInBounds]
      exact total_set_le _ _ _ _

theorem total_retire (a : α) (p next : SlotPool α) (k : Handle) (retired : p.retire k = some (a, next)) :
    total (next.liveValues.map f) + f a = total (p.liveValues.map f) := by
  obtain ⟨reads, rfl⟩ := retire_cases k p next a retired
  rw [total_live, total_live, put, Array.toList_setIfInBounds]
  exact total_set (weigh f) _ _ _ ⟨k.generation, .retiring⟩ ((state_place k p _).mp reads)

theorem total_reclaimed (k : Handle) (p : SlotPool α) :
    total ((p.reclaimed k).liveValues.map f) ≤ total (p.liveValues.map f) := by
  have vacated : total ((p.vacate k).liveValues.map f) ≤ total (p.liveValues.map f) := by
    rw [total_live, total_live, vacate, Array.toList_setIfInBounds]
    exact total_set_le (weigh f) _ _ ⟨k.generation, .vacant⟩
  unfold reclaimed
  split
  · next v next released =>
      unfold release at released
      split at released <;> cases released <;> exact vacated
  · exact le_rfl

end SlotPool

namespace RunLoop

theorem weight_push (t : Task) (l : RunLoop) : { l with queue := l.queue.push t }.weight = l.weight + t.weight := by
  simp only [weight, Fifo.toList_push, List.map_append, total_append, List.map_cons, List.map_nil, total_cons, total_nil]
  omega

theorem weight_enqueue (t : Task) (l next : RunLoop) (queued : l.enqueue t = .ok next) : next.weight = l.weight + t.weight := by
  rw [enqueue_cases t l next queued]
  exact weight_push t l

theorem weight_stop (caller : Option Thread) (l : RunLoop) : (l.stop caller).weight ≤ l.weight + 1 := by
  unfold stop
  split
  · exact Nat.le_succ l.weight
  · split
    · exact le_of_eq (weight_push .stop l)
    · exact Nat.le_succ l.weight

end RunLoop

namespace Hub

theorem weight_set (h : Hub) (i : Nat) (l next : RunLoop) (place : h.loops[i]? = some l) :
    ({ h with loops := h.loops.set i next } : Hub).weight + l.weight = h.weight + next.weight := by
  have change := total_set RunLoop.weight h.loops i l next place
  simp only [weight]
  omega

theorem weight_modify (h : Hub) (i n : Nat) (f : RunLoop → RunLoop) (change : ∀ l, (f l).weight ≤ l.weight + n) :
    (h.modifyLoop i f).weight ≤ h.weight + n := by
  rcases h.modify_cases i f with ⟨-, same⟩ | ⟨l, place, modified⟩
  · rw [same]
    exact Nat.le_add_right _ _
  · have set := h.weight_set i l (f l) place
    have more := change l
    rw [modified]
    omega

theorem weight_enqueue (h next : Hub) (i : Nat) (t : Task) (queued : h.enqueue i t = .ok next) :
    next.weight = h.weight + t.weight := by
  obtain ⟨l, after, place, taken, rfl⟩ := enqueue_cases h next i t queued
  have set := h.weight_set i l after place
  have more := RunLoop.weight_enqueue t l after taken
  omega

theorem weight_relay (h : Hub) (r next : Relay) (relay : h.relay = some r) :
    ({ h with relay := some next } : Hub).weight + r.weight = h.weight + next.weight := by
  simp only [weight, relay, Option.map_some, Option.getD_some]
  omega

theorem weight_count (h : Hub) (f : RelayTally → RelayTally) : (h.count f).weight = h.weight := by
  unfold count onRelay weight
  cases h.relay <;> rfl

theorem weight_passSerial (h : Hub) : h.passSerial.weight = h.weight := by
  unfold passSerial onRelay weight
  cases h.relay <;> rfl

theorem weight_noteDropped (h : Hub) (callback : Option (FreeCallback Action)) : (h.noteDropped callback).weight = h.weight := by
  obtain ⟨journal, dropped⟩ := h.noteDropped_cases callback
  rw [dropped]
  rfl

theorem weight_reclaim (h : Hub) (k : Handle) : (h.reclaim k).weight ≤ h.weight := by
  obtain ⟨journal, reclaimed⟩ := h.reclaim_cases k
  rw [reclaimed]
  cases relay : h.relay with
  | none => simp [weight, relay]
  | some r =>
      have less := SlotPool.total_reclaimed (fun p : Parcel => FreeCallback.weight? p.callback) k r.pool
      simp only [weight, relay, Option.map_some, Option.getD_some, Relay.weight]
      omega

theorem weight_discard (h : Hub) (e : Event) : (h.discard e).weight ≤ h.weight := by
  unfold discard
  split
  · exact le_rfl
  · exact le_rfl
  · exact weight_reclaim h _

theorem weight_complete (k : Handle) (h : Hub) : (h.complete k).weight ≤ h.weight := by
  unfold complete
  split
  · exact le_rfl
  · next r relay =>
      split
      · exact le_of_eq (weight_count h _)
      · next parcel pool retired =>
          have less := SlotPool.total_retire (fun p : Parcel => FreeCallback.weight? p.callback) parcel r.pool pool k retired
          have change := h.weight_relay r { r with pool := pool, tally := r.tally.countCompletion } relay
          simp only [Relay.weight] at change less
          simp only
          split
          · have back := weight_reclaim ({ h with relay := some { r with pool := pool, tally := r.tally.countCompletion } }) k
            exact back.trans (by omega)
          · next callback held =>
              rw [held] at less
              split
              · next next queued =>
                  have more := weight_enqueue _ next _ _ queued
                  have job : (Task.job (.handBack k parcel.serial callback parcel.message.payload)).weight =
                      FreeCallback.weight? (some callback) := by
                    obtain ⟨label, script⟩ := callback
                    rfl
                  change next.weight ≤ _
                  omega
              · refine (weight_reclaim _ k).trans ?_
                rw [weight_count]
                change ({ h with relay := some { r with pool := pool, tally := r.tally.countCompletion } } : Hub).weight ≤ _
                omega

theorem weight_attempt (h : Hub) (k : Handle) (parcel : Parcel) : (h.attempt k parcel).2.weight ≤ h.weight + 1 := by
  rcases attempt_cases h k parcel with ⟨-, unknown⟩ | ⟨j, badge, -, ⟨next, queued, posted⟩ | ⟨failure, -, refused⟩⟩
  · rw [unknown]
    exact Nat.le_succ _
  · rw [posted]
    exact le_of_eq (weight_enqueue h next j _ queued)
  · rw [refused]
    exact (weight_reclaim h k).trans (Nat.le_succ _)

theorem weight_lent (h : Hub) (pool : SlotPool Parcel) (r : Relay) (parcel : Parcel) (k : Handle) (relay : h.relay = some r)
    (allocated : r.pool.allocate parcel = some (k, pool)) :
    (h.lent pool r).weight ≤ h.weight + FreeCallback.weight? parcel.callback := by
  have more := SlotPool.total_allocate (fun p : Parcel => FreeCallback.weight? p.callback) parcel r.pool pool k allocated
  have change := h.weight_relay r { r with pool := pool } relay
  simp only [Relay.weight] at change more
  unfold lent
  omega

theorem weight_route (h : Hub) (a : Arrival) (r : Relay) (relay : h.relay = some r) :
    (h.route a r).2.weight ≤ h.weight + 2 := by
  rcases route_cases h r a with ⟨failure, rejected⟩ | ⟨k, pool, allocated, routed⟩
  · rw [rejected]
    exact Nat.le_add_right _ _
  · have lent := weight_lent h pool r _ k relay allocated
    have tried := attempt_cases (h.lent pool r) k ⟨a.message, none, r.serial⟩
    have posted := weight_attempt (h.lent pool r) k ⟨a.message, none, r.serial⟩
    simp only [FreeCallback.weight?] at lent
    rw [routed]
    split
    · next after attempted =>
        rw [attempted] at posted
        simp only at posted ⊢
        omega
    · next after attempted =>
        rw [attempted] at posted
        simp only at posted ⊢
        omega
    · next after attempted =>
        -- A message to an unknown app posts nothing, and its retry weighs one more than an event.
        have unchanged : after = h.lent pool r := by
          rcases tried with ⟨-, unknown⟩ | ⟨j, badge, -, ⟨next, -, other⟩ | ⟨failure, -, other⟩⟩
          · rw [unknown] at attempted
            cases attempted
            rfl
          · rw [other] at attempted
            cases attempted
          · rw [other] at attempted
            cases attempted
        rw [unchanged]
        unfold putOff
        split
        · next next queued =>
            have more := weight_enqueue _ next 0 _ queued
            simp only [Task.weight, Job.weight] at more ⊢
            omega
        · have back := weight_reclaim (h.lent pool r) k
          simp only at back ⊢
          omega

theorem weight_receive (h next : Hub) (a : Arrival) (routing : Routing) (received : h.receive a = some (routing, next)) :
    next.weight ≤ h.weight + 2 := by
  obtain ⟨r, relay, equal⟩ := Option.map_eq_some_iff.mp received
  cases equal
  rw [weight_passSerial]
  change ((h.route a r).2.count _).weight ≤ _
  rw [weight_count]
  exact weight_route h a r relay

theorem weight_retry (h : Hub) (k : Handle) : (h.retry k).2.weight ≤ h.weight + 1 := by
  unfold retry
  split
  · exact Nat.le_succ _
  · next parcel _ =>
      have tried := weight_attempt h k parcel
      split
      · next after attempted =>
          rw [attempted] at tried
          exact (le_of_eq (weight_count after _)).trans tried
      · next after attempted =>
          rw [attempted] at tried
          exact tried
      · next after attempted =>
          rw [attempted] at tried
          change ((after.count RelayTally.countUnknown).reclaim k).weight ≤ _
          exact (weight_reclaim _ k).trans ((le_of_eq (weight_count after _)).trans tried)

theorem weight_requestLoad (h : Hub) (i : Nat) (app : AppId) (permissions : Permissions) (program : Program Action) :
    (h.requestLoad i app permissions program).2.weight ≤ h.weight + (program.weight + 1) := by
  cases place : h.loops[i]? with
  | none =>
      simp only [requestLoad, place]
      exact Nat.le_add_right _ _
  | some l =>
      have issued : (h.issued i app permissions l).weight = h.weight := by
        have set := h.weight_set i l l.issue.2 place
        exact Nat.add_right_cancel (set.trans rfl)
      rw [requestLoad_issued h i app permissions program l place]
      split
      · next next queued =>
          have more := weight_enqueue _ next i _ queued
          simp only [Task.weight] at more
          omega
      · omega

theorem weight_requestLoads (h : Hub) (i count : Nat) (app : AppId) (last : Reply) :
    (h.requestLoads i count app last).2.weight ≤ h.weight + count := by
  induction count generalizing h app last with
  | zero => exact le_rfl
  | succ count ih =>
      have first : (h.requestLoad i app Permissions.none .inert).2.weight ≤ h.weight + 1 :=
        weight_requestLoad h i app .none .inert
      have later := ih (h.requestLoad i app Permissions.none .inert).2 (app + 1)
        (.loaded (h.requestLoad i app Permissions.none .inert).1)
      exact later.trans (by omega)

end Hub

namespace Stack

theorem weight_linked (n : Nat) (k : Handle) (h : Hub) (bounded : h.weight ≤ n) : (h.complete k).weight ≤ n :=
  (Hub.weight_complete k h).trans bounded

theorem weight_offer (m : Outgoing) (s : Stack) : (s.offer m).2.weight ≤ s.weight := by
  have completed : ∀ (handles : List Handle) (h : Hub), (handles.foldl (fun h k => h.complete k) h).weight ≤ h.weight := by
    intro handles
    induction handles with
    | nil => exact fun h => le_rfl
    | cons k rest ih => exact fun h => (ih _).trans (Hub.weight_complete k h)
  unfold offer
  split
  · exact le_rfl
  · simp only
    split <;> exact completed _ _

theorem weight_sendAs (badge : Badge) (d : Dispatch Action) (r : Relay) (s : Stack) (relay : s.hub.relay = some r) :
    (s.sendAs badge d r).2.weight ≤ s.weight + d.weight := by
  have carried : FreeCallback.weight? d.free = d.weight := by
    obtain ⟨sender, payload, kind, endpoint, permissions, free, brief, label⟩ := d
    rfl
  rcases sendAs_cases badge d s r with ⟨failure, refused⟩ | ⟨woke, k, pool, allocated, answered⟩
  · rw [refused]
    change ((s.hub.noteDropped d.free).count _).weight ≤ _
    rw [Hub.weight_count, Hub.weight_noteDropped]
    exact Nat.le_add_right _ _
  · have lent := Hub.weight_lent s.hub pool r _ k relay allocated
    have offered := weight_offer ⟨k, d.message badge woke⟩ (s.onHub (·.lent pool r))
    have bound : ((s.onHub (·.lent pool r)).offer ⟨k, d.message badge woke⟩).2.weight ≤ s.weight + d.weight := by
      rw [← carried]
      exact offered.trans lent
    rw [answered]
    split
    · next after taken =>
        rw [taken] at bound
        refine le_trans (le_of_eq ?_) bound
        unfold credit
        split
        · rfl
        · next r' relay' => simp [weight, Hub.weight, onHub, relay', Relay.weight]
    · next after taken =>
        rw [taken] at bound
        rw [withdraw_cases]
        change ((after.hub.reclaim k).count _).weight ≤ _
        rw [Hub.weight_count]
        exact (Hub.weight_reclaim after.hub k).trans bound

theorem weight_send (d : Dispatch Action) (s : Stack) : (s.send d).2.weight ≤ s.weight + d.weight := by
  rcases send_cases d s with same | ⟨r, badge, labels, relay, sent⟩
  · rw [same]
    exact Nat.le_add_right _ _
  · rw [sent]
    change (((s.sendAs badge d r).2.hub.record _).passSerial).weight ≤ _
    rw [Hub.weight_passSerial]
    exact weight_sendAs badge d r s relay

theorem weight_flush (s : Stack) : s.flush.2.weight ≤ s.weight := by
  unfold flush
  split
  · next u _ => exact Uplink.haul_keeps Hub.complete (·.weight ≤ s.weight) (weight_linked s.weight) u s.hub le_rfl
  · exact le_rfl

theorem weight_shutdown (s : Stack) : s.shutdown.weight ≤ s.weight := by
  unfold shutdown
  split
  · next u _ => exact Uplink.shutdown_keeps Hub.complete (·.weight ≤ s.weight) (weight_linked s.weight) u s.hub le_rfl
  · exact le_rfl

theorem weight_uplink (c : UplinkCall) (u : Uplink) (s : Stack) : (s.onUplink c u).2.weight ≤ s.weight := by
  cases c with
  | start =>
      simp only [onUplink]
      split <;> exact le_rfl
  | pump limit =>
      exact Uplink.pump_keeps Hub.complete (·.weight ≤ s.weight) (weight_linked s.weight) limit u s.hub le_rfl
  | pause | resume | spoil | takeReceived => exact le_rfl

theorem weight_enqueue (s next : Stack) (i : Nat) (t : Task) (queued : s.enqueue i t = .ok next) :
    next.weight = s.weight + t.weight := by
  unfold enqueue at queued
  split at queued
  · next hub taken =>
      cases queued
      exact Hub.weight_enqueue s.hub hub i t taken
  · cases queued

theorem weight_ifLoop (i n : Nat) (f : RunLoop → Reply × Stack) (s : Stack) (each : ∀ l, (f l).2.weight ≤ s.weight + n) :
    (s.ifLoop i f).2.weight ≤ s.weight + n :=
  s.ifLoop_keeps (·.weight ≤ s.weight + n) i f (Nat.le_add_right _ _) fun l _ => each l

theorem weight_ifRelay (n : Nat) (f : Stack → Reply × Stack) (s : Stack) (each : (f s).2.weight ≤ s.weight + n) :
    (s.ifRelay f).2.weight ≤ s.weight + n :=
  s.ifRelay_keeps (·.weight ≤ s.weight + n) f (Nat.le_add_right _ _) each

theorem weight_ifHandle (n : Nat) (r : HandleRef) (f : Handle → Stack → Reply × Stack) (s : Stack)
    (each : ∀ k, (f k s).2.weight ≤ s.weight + n) : (s.ifHandle r f).2.weight ≤ s.weight + n :=
  s.ifHandle_keeps (·.weight ≤ s.weight + n) r f (Nat.le_add_right _ _) each

theorem weight_act (a : Action) (s : Stack) : (s.act a).2.weight ≤ s.weight + a.weight := by
  cases a with
  | load i app permissions program =>
      exact weight_ifLoop i _ _ s fun _ => Hub.weight_requestLoad s.hub i app permissions program
  | loadMany i app count => exact weight_ifLoop i _ _ s fun _ => Hub.weight_requestLoads s.hub i count app .done
  | unload i app =>
      refine weight_ifLoop i _ _ s fun _ => ?_
      split
      · next next queued => exact le_of_eq (weight_enqueue s next i _ queued)
      · exact Nat.le_add_right _ _
  | find i app => exact weight_ifLoop i _ _ s fun _ => le_rfl
  | grab i app name =>
      refine weight_ifLoop i _ _ s fun _ => ?_
      split <;> exact le_rfl
  | enrol name app inst permissions => exact le_rfl
  | post i event =>
      refine weight_ifLoop i _ _ s fun _ => ?_
      split
      · next next queued => exact le_of_eq (weight_enqueue s next i _ queued)
      · exact (Hub.weight_discard s.hub event).trans (Nat.le_add_right _ _)
  | defer i label script =>
      refine weight_ifLoop i _ _ s fun _ => ?_
      split
      · next next queued => exact le_of_eq (weight_enqueue s next i _ queued)
      · exact Nat.le_add_right _ _
  | stop i elsewhere =>
      refine weight_ifLoop i _ _ s fun _ => ?_
      exact Hub.weight_modify s.hub i 1 _ fun l => l.weight_stop _
  | send dispatch => exact weight_send dispatch s
  | complete r => exact weight_ifHandle _ r _ s fun k => Hub.weight_complete k s.hub
  | retry r => exact weight_ifHandle _ r _ s fun k => Hub.weight_retry s.hub k
  | deliver arrival viaLink =>
      simp only [act]
      split
      · next routing hub received => exact Hub.weight_receive s.hub hub arrival routing received
      · exact Nat.le_add_right _ _
  | resetClaim =>
      refine weight_ifRelay _ _ s (le_of_eq ?_)
      simp only [endCycle, onHub, Hub.onRelay, weight, Hub.weight]
      cases s.hub.relay <;> rfl
  | shutdown => exact weight_ifRelay _ _ s (weight_shutdown s)
  | flush => exact weight_ifRelay _ _ s (weight_flush s)
  | suspend =>
      simp only [act]
      split
      · refine le_of_eq ?_
        simp only [endCycle, onHub, Hub.onRelay, weight, Hub.weight]
        cases s.hub.relay <;> rfl
      · exact le_rfl
  | wake => exact le_rfl
  | uplink call =>
      simp only [act]
      split
      · next u _ => exact weight_uplink call u s
      · exact le_rfl
  | puppet call =>
      simp only [act]
      split
      · exact le_rfl
      · cases call <;> exact le_rfl
  | malformed toRelay =>
      simp only [act]
      split
      · exact weight_ifRelay _ _ s le_rfl
      · exact le_rfl

theorem weight_perform (script : Script) (s : Stack) : (s.perform script).weight ≤ s.weight + Script.weight script := by
  induction script generalizing s with
  | nil => exact le_rfl
  | cons a rest ih =>
      have acted := weight_act a s
      have later := ih ((s.act a).2.note (.answered (s.act a).1))
      have noted : ((s.act a).2.note (.answered (s.act a).1)).weight = (s.act a).2.weight := rfl
      have whole : Script.weight (a :: rest) = a.weight + Script.weight rest := rfl
      exact later.trans (by omega)

end Stack

namespace Program

theorem weight_start (p : Program Action) : Script.weight p.startScript + p.afterStart.weight = p.weight := by
  cases p with
  | scripted starts onStart onEvent onEnd =>
      simp only [startScript, afterStart, weight, Script.weight]
      omega
  | plain | inert => rfl

theorem weight_next (p : Program Action) : Script.weight p.nextScript.1 + p.nextScript.2.weight = p.weight := by
  cases p with
  | scripted starts onStart onEvent onEnd =>
      cases onEvent with
      | nil => simp [nextScript, Script.weight]
      | cons script rest =>
          simp only [nextScript, weight, Script.weights]
          omega
  | plain | inert => rfl

theorem weight_end (p : Program Action) : Script.weight p.endScript ≤ p.weight := by
  cases p with
  | scripted starts onStart onEvent onEnd => exact Nat.le_add_left _ _
  | plain | inert => exact Nat.le_refl 0

end Program

def Epilogue.weight : Epilogue → Nat
  | .install _ program => program.afterStart.weight
  | _ => 0

namespace RunLoop

theorem weight_setProgram (inst : InstanceId) (badge : Badge) (program : Program Action) (l : RunLoop)
    (ordered : l.apps.Pairwise fun a b => a.badge.inst < b.badge.inst) (loaded : l.loaded? inst = some ⟨badge, program⟩) :
    (l.setProgram badge.inst program.nextScript.2).weight + Script.weight program.nextScript.1 = l.weight := by
  have same : badge.inst = inst := by simpa using List.find?_some loaded
  have turned := program.weight_next
  -- Only one of the entries changes, as no two have the same id.
  have listed : ∀ apps : List Loaded, (apps.Pairwise fun a b => a.badge.inst < b.badge.inst) →
      apps.find? (·.badge.inst == inst) = some ⟨badge, program⟩ →
      total ((apps.map fun a => if a.badge.inst == inst then { a with program := program.nextScript.2 } else a).map
        (·.program.weight)) + Script.weight program.nextScript.1 = total (apps.map (·.program.weight)) := by
    intro apps ordered found
    induction apps with
    | nil => cases found
    | cons a rest ih =>
        obtain ⟨first, later⟩ := List.pairwise_cons.mp ordered
        cases here : a.badge.inst == inst with
        | true =>
            rw [List.find?_cons, here] at found
            cases found
            have others : (rest.map fun a => if a.badge.inst == inst then { a with program := program.nextScript.2 } else a) =
                rest := by
              refine (List.map_congr_left fun b member => ?_).trans rest.map_id
              have apart : (b.badge.inst == inst) = false := by
                refine beq_eq_false_iff_ne.mpr fun equal => ?_
                have less := first b member
                rw [equal, beq_iff_eq.mp here] at less
                exact UInt16.lt_irrefl _ less
              simp [apart]
            simp only [List.map_cons, here, if_true, total_cons, others]
            omega
        | false =>
            rw [List.find?_cons, here] at found
            have tail := ih later found
            simp only [List.map_cons, here, Bool.false_eq_true, if_false, total_cons]
            omega
  have table := listed l.apps ordered loaded
  rw [same]
  simp only [weight, setProgram]
  omega

theorem weight_evict (inst : InstanceId) (a : Loaded) (l : RunLoop) (loaded : l.loaded? inst = some a) :
    (l.evict inst).weight + a.program.weight ≤ l.weight := by
  have less : ∀ apps : List Loaded, total ((apps.filter (·.badge.inst != inst)).map (·.program.weight)) ≤
      total (apps.map (·.program.weight)) := by
    intro apps
    induction apps with
    | nil => exact le_rfl
    | cons b rest ih =>
        rw [List.filter_cons]
        split <;> simp only [List.map_cons, total_cons] <;> omega
  have listed : ∀ apps : List Loaded, apps.find? (·.badge.inst == inst) = some a →
      total ((apps.filter (·.badge.inst != inst)).map (·.program.weight)) + a.program.weight ≤
        total (apps.map (·.program.weight)) := by
    intro apps found
    induction apps with
    | nil => cases found
    | cons b rest ih =>
        rw [List.find?_cons] at found
        cases here : b.badge.inst == inst with
        | true =>
            rw [here] at found
            cases found
            have rest := less rest
            simp only [List.filter_cons, bne, here, Bool.not_true, Bool.false_eq_true, if_false, List.map_cons, total_cons]
            simp only [bne] at rest
            omega
        | false =>
            rw [here] at found
            have tail := ih found
            simp only [List.filter_cons, bne, here, Bool.not_false, if_true, List.map_cons, total_cons]
            simp only [bne] at tail
            omega
  have table := listed l.apps loaded
  simp only [weight, evict]
  omega

theorem weight_install (a : Loaded) (l : RunLoop) : (l.install a).weight ≤ l.weight + a.program.weight := by
  have placed : ∀ apps : List Loaded, total ((placeApp a apps).map (·.program.weight)) ≤
      total (apps.map (·.program.weight)) + a.program.weight := by
    intro apps
    induction apps with
    | nil => simp [placeApp]
    | cons b rest ih =>
        simp only [placeApp]
        split
        · simp only [List.map_cons, total_cons]
          omega
        · split <;> simp only [List.map_cons, total_cons] <;> omega
  have table := placed l.apps
  simp only [weight, install]
  omega

end RunLoop

namespace Stack

variable (i : Nat)

theorem weight_modify (f : RunLoop → RunLoop) (s : Stack) (lighter : ∀ l, (f l).weight ≤ l.weight) :
    (s.modifyLoop i f).weight ≤ s.weight := Hub.weight_modify s.hub i 0 f lighter

theorem weight_modify_at (n : Nat) (f : RunLoop → RunLoop) (s : Stack) (l : RunLoop) (place : s.loop? i = some l)
    (change : (f l).weight + n ≤ l.weight) : (s.modifyLoop i f).weight + n ≤ s.weight := by
  have here : s.hub.loops[i]? = some l := place
  have set := s.hub.weight_set i l (f l) here
  rcases s.hub.modify_cases i f with ⟨absent, -⟩ | ⟨l', place', modified⟩
  · rw [here] at absent
    cases absent
  · rw [here] at place'
    cases place'
    change (s.hub.modifyLoop i f).weight + n ≤ s.hub.weight
    rw [modified]
    omega

theorem weight_popped (t : Task) (s next : Stack) (taken : s.next? i = some (t, next)) : next.weight + t.weight = s.weight := by
  obtain ⟨l, queue, place, waits, rfl⟩ := next_cases i t s next taken
  have set : (s.onHub fun h => { h with loops := h.loops.set i { l with queue := queue } }).weight + l.weight =
      s.weight + { l with queue := queue }.weight := s.hub.weight_set i l { l with queue := queue } place
  have less : l.weight = { l with queue := queue }.weight + t.weight := by
    simp only [RunLoop.weight, waits, List.map_cons, total_cons]
    omega
  omega

theorem weight_event (e : Event) (s : Stack) (l : RunLoop) (place : s.loop? i = some l)
    (ordered : l.apps.Pairwise fun a b => a.badge.inst < b.badge.inst) :
    (s.startEvent i e).2.2.weight + Script.weight (s.startEvent i e).1 + (s.startEvent i e).2.1.weight ≤ s.weight := by
  have freed : (s.modifyLoop i RunLoop.freeEvent).loop? i = some l.freeEvent := by
    have here : s.hub.loops[i]? = some l := place
    simp [modifyLoop, onHub, loop?, Hub.modifyLoop, here]
  have light : (s.modifyLoop i RunLoop.freeEvent).weight ≤ s.weight := weight_modify i _ s fun _ => le_rfl
  unfold startEvent
  simp only [freed, Option.bind_some]
  split
  · have dropped := weight_modify i RunLoop.countDropped (s.modifyLoop i RunLoop.freeEvent) fun _ => le_rfl
    have discarded := Hub.weight_discard
      ((((s.modifyLoop i RunLoop.freeEvent).modifyLoop i RunLoop.countDropped).hub.call i (.drop e)).record (.missed i e)) e
    exact discarded.trans (dropped.trans light)
  · next badge program loaded =>
      have turned := l.freeEvent.weight_setProgram e.target badge program ordered loaded
      have passed := weight_modify_at i (Script.weight program.nextScript.1) (·.setProgram badge.inst program.nextScript.2)
        (s.modifyLoop i RunLoop.freeEvent) l.freeEvent freed (le_of_eq turned)
      refine le_trans (le_of_eq ?_) (passed.trans light)
      cases program <;> rfl

theorem weight_load (badge : Badge) (program : Program Action) (s : Stack) :
    (s.startLoad i badge program).2.2.weight + Script.weight (s.startLoad i badge program).1 +
      (s.startLoad i badge program).2.1.weight ≤ s.weight + program.weight := by
  have started := program.weight_start
  have noted : ((s.noteStart i badge program).onHub (·.call i (.start badge program))).weight = s.weight := by
    unfold noteStart
    split <;> rfl
  unfold startLoad
  split
  · exact Nat.le_add_right _ _
  · simp only [Epilogue.weight, noted]
    omega

theorem weight_unload (app : AppId) (s : Stack) :
    (s.startUnload i app).2.2.weight + Script.weight (s.startUnload i app).1 + (s.startUnload i app).2.1.weight ≤ s.weight := by
  have struck : (s.modifyLoop i (·.strike app)).weight ≤ s.weight := weight_modify i _ s fun _ => le_rfl
  unfold startUnload
  split
  · exact le_rfl
  · next badge _ =>
      simp only
      split
      · exact struck
      · next a found =>
          obtain ⟨l, place, loaded⟩ := Option.bind_eq_some_iff.mp found
          have evicted := weight_modify_at i a.program.weight (·.evict badge.inst) (s.modifyLoop i (·.strike app)) l place
            (l.weight_evict badge.inst a loaded)
          have ended := a.program.weight_end
          have noted : ((((s.modifyLoop i (·.strike app)).modifyLoop i (·.evict badge.inst)).noteEnd a).onHub
              (·.call i (.close a.badge a.program))).weight = ((s.modifyLoop i (·.strike app)).modifyLoop i (·.evict badge.inst)).weight := by
            unfold noteEnd
            split <;> rfl
          simp only [Epilogue.weight, noted]
          omega

theorem weight_job (j : Job) (s : Stack) :
    (s.startJob j).2.2.weight + Script.weight (s.startJob j).1 + (s.startJob j).2.1.weight ≤ s.weight + j.weight := by
  cases j with
  | user label script => exact le_rfl
  | handBack k n callback payload => exact le_rfl
  | retry k n => exact Hub.weight_retry s.hub k

theorem weight_finish (rest : Epilogue) (s : Stack) : (s.finishTask i rest).weight ≤ s.weight + rest.weight := by
  cases rest with
  | nothing => exact le_rfl
  | install badge program =>
      simp only [finishTask]
      split
      · exact Hub.weight_modify s.hub i program.afterStart.weight _ fun l => l.weight_install ⟨badge, program.afterStart⟩
      · exact Nat.le_add_right _ _
  | consume e => exact (Hub.weight_discard _ e).trans (weight_modify i RunLoop.countDelivered s fun _ => le_rfl)
  | countJob => exact weight_modify i RunLoop.countJob s fun _ => le_rfl
  | giveBack k =>
      refine (weight_modify i RunLoop.countJob _ fun _ => le_rfl).trans ?_
      exact (Hub.weight_reclaim _ k).trans (le_of_eq (Hub.weight_count s.hub _))

theorem weight_drop (t : Task) (s next : Stack) (taken : s.next? i = some (t, next)) (plain : ∀ j, t ≠ .job j) :
    (s.dropTask i).weight < s.weight := by
  have popped := weight_popped i t s next taken
  cases t with
  | event e =>
      have light := weight_modify i (fun l => l.freeEvent.countDropped) next fun _ => le_rfl
      have discarded := Hub.weight_discard
        (((next.modifyLoop i fun l => l.freeEvent.countDropped).hub.call i (.drop e)).record (.drained i e)) e
      simp only [dropTask, taken]
      simp only [Task.weight] at popped
      exact Nat.lt_of_le_of_lt (discarded.trans light) (by omega)
  | job j => exact absurd rfl (plain j)
  | load | unload | stop =>
      simp only [dropTask, taken]
      simp only [Task.weight] at popped
      omega

-- Each task lessens the weight by one at least. An event could raise it if several nanoapps had its target's id.
theorem weight_task (t : Task) (s next : Stack) (taken : s.next? i = some (t, next))
    (ordered : ∀ e, t = .event e → ∀ l, s.loop? i = some l → l.apps.Pairwise fun a b => a.badge.inst < b.badge.inst) :
    (next.runTask i t).weight < s.weight := by
  have popped := weight_popped i t s next taken
  have started : (next.startTask i t).2.2.weight + Script.weight (next.startTask i t).1 + (next.startTask i t).2.1.weight + 1 ≤
      next.weight + t.weight := by
    cases t with
    | event e =>
        obtain ⟨l, queue, place, -, rfl⟩ := next_cases i _ s next taken
        have here := List.getElem?_set_self (a := { l with queue := queue }) (List.getElem?_eq_some_iff.mp place).1
        exact Nat.succ_le_succ (weight_event i e _ _ here (ordered e rfl l place))
    | job j => exact Nat.succ_le_succ (weight_job j next)
    | load badge program => exact Nat.succ_le_succ (weight_load i badge program next)
    | unload app => exact Nat.succ_le_succ (weight_unload i app next)
    | stop => exact le_rfl
  have performed := weight_perform (next.startTask i t).1 (next.startTask i t).2.2
  have finished := weight_finish i (next.startTask i t).2.1 ((next.startTask i t).2.2.perform (next.startTask i t).1)
  exact Nat.lt_of_le_of_lt finished (by omega)

end Stack

end HubRelay
