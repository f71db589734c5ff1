import HubRelay.Proofs.Loop.Weights

/-! What few operations change of a hub: that it has a relay, the loops that the relay knows, the stops that the
threads asked for that drive them, the count of the messages that were put off, and the retries that wait. -/

set_option autoImplicit false

namespace HubRelay

def Task.retries : Task → Nat
  | .job (.retry _ _) => 1
  | _ => 0

def RunLoop.retries (l : RunLoop) : Nat := total (l.queue.toList.map Task.retries)

structure Standing where
  alive : Bool
  registered : Nat
  flags : List Bool
  deferred : Nat
  deferredDelivered : Nat
  unknownDestination : Nat
  retries : Nat

namespace Standing

def wait (n : Nat) (s : Standing) : Standing := { s with retries := s.retries + n }

def counted (deferred delivered unknown : Nat) (s : Standing) : Standing :=
  { s with
    deferred := s.deferred + deferred
    deferredDelivered := s.deferredDelivered + delivered
    unknownDestination := s.unknownDestination + unknown }

end Standing

namespace RelayTally

structure Adds (deferred delivered unknown : Nat) (f : RelayTally → RelayTally) : Prop where
  deferred : ∀ t, (f t).deferred = t.deferred + deferred
  delivered : ∀ t, (f t).deferredDelivered = t.deferredDelivered + delivered
  unknown : ∀ t, (f t).unknownDestination = t.unknownDestination + unknown

end RelayTally

namespace Hub

def tally (h : Hub) : RelayTally := (h.relay.map (·.tally)).getD {}

def retries (h : Hub) : Nat := total (h.loops.map RunLoop.retries)

def standing (h : Hub) : Standing where
  alive := h.relay.isSome
  registered := h.registered
  flags := h.loops.map (·.stopRequested)
  deferred := h.tally.deferred
  deferredDelivered := h.tally.deferredDelivered
  unknownDestination := h.tally.unknownDestination
  retries := h.retries

theorem flags_set (loops : List RunLoop) (i : Nat) (l next : RunLoop) (place : loops[i]? = some l)
    (same : next.stopRequested = l.stopRequested) :
    (loops.set i next).map (·.stopRequested) = loops.map (·.stopRequested) := by
  apply List.ext_getElem?
  intro j
  by_cases here : i = j
  · subst here
    have bound := (List.getElem?_eq_some_iff.mp place).1
    simp only [List.getElem?_map, List.getElem?_set_self bound, place, Option.map_some, same]
  · simp only [List.getElem?_map, List.getElem?_set_ne here]

theorem standing_set (h : Hub) (i n : Nat) (l next : RunLoop) (place : h.loops[i]? = some l)
    (flag : next.stopRequested = l.stopRequested) (retries : next.retries = l.retries + n) :
    ({ h with loops := h.loops.set i next } : Hub).standing = h.standing.wait n := by
  have change := total_set RunLoop.retries h.loops i l next place
  have more : total ((h.loops.set i next).map RunLoop.retries) = total (h.loops.map RunLoop.retries) + n := by omega
  simp only [standing, Hub.retries, flags_set h.loops i l next place flag, more]
  rfl

theorem standing_modify (h : Hub) (i : Nat) (f : RunLoop → RunLoop) (flag : ∀ l, (f l).stopRequested = l.stopRequested)
    (retries : ∀ l, (f l).retries = l.retries) : (h.modifyLoop i f).standing = h.standing := by
  rcases h.modify_cases i f with ⟨-, same⟩ | ⟨l, place, change⟩
  · rw [same]
  · rw [change]
    exact standing_set h i 0 l (f l) place (flag l) (retries l)

theorem standing_enqueue (h next : Hub) (i : Nat) (t : Task) (queued : h.enqueue i t = .ok next) :
    next.standing = h.standing.wait t.retries := by
  obtain ⟨l, after, place, taken, rfl⟩ := enqueue_cases h next i t queued
  have change := RunLoop.enqueue_cases t l after taken
  refine standing_set h i t.retries l after place (by rw [change]) ?_
  rw [change]
  simp [RunLoop.retries]

theorem standing_stop (h : Hub) (i : Nat) (caller : Option Thread) (l : RunLoop) (place : h.loops[i]? = some l) :
    (h.modifyLoop i (·.stop caller)).standing =
      if caller.isSome && l.owner == caller then { h.standing with flags := h.standing.flags.set i true } else h.standing := by
  rcases h.modify_cases i (·.stop caller) with ⟨absent, -⟩ | ⟨l', place', change⟩
  · rw [place] at absent
    cases absent
  · rw [place] at place'
    cases place'
    rw [change, RunLoop.stop]
    split
    · have retries := total_set RunLoop.retries h.loops i l { l with stopRequested := true } place
      have same : total ((h.loops.set i { l with stopRequested := true }).map RunLoop.retries) =
          total (h.loops.map RunLoop.retries) := Nat.add_right_cancel (retries.trans rfl)
      have flags : (h.loops.set i { l with stopRequested := true }).map (·.stopRequested) =
          (h.loops.map (·.stopRequested)).set i true := List.map_set
      simp only [standing, Hub.retries, same, flags]
      rfl
    · split
      · exact standing_set h i 0 l _ place rfl (by simp [RunLoop.retries, Task.retries])
      · exact standing_set h i 0 l l place rfl rfl

theorem standing_adds (h : Hub) (f : RelayTally → RelayTally) (deferred delivered unknown : Nat)
    (adds : RelayTally.Adds deferred delivered unknown f) (alive : h.standing.alive = true) :
    (h.count f).standing = h.standing.counted deferred delivered unknown := by
  obtain ⟨r, relay⟩ := Option.isSome_iff_exists.mp alive
  simp only [standing, Standing.counted, tally, count, onRelay, relay, Option.map_some, Option.getD_some, adds.deferred,
    adds.delivered, adds.unknown]
  rfl

theorem standing_count (h : Hub) (f : RelayTally → RelayTally) (aside : RelayTally.Adds 0 0 0 f) :
    (h.count f).standing = h.standing := by
  cases alive : h.standing.alive with
  | true => exact standing_adds h f 0 0 0 aside alive
  | false =>
      have none : h.relay = none := by simpa [standing] using alive
      simp only [count, onRelay, none, Option.map_none, standing, tally, retries]

theorem standing_relay (h : Hub) (r next : Relay) (relay : h.relay = some r) (tally : next.tally = r.tally) :
    ({ h with relay := some next } : Hub).standing = h.standing := by
  simp only [standing, Hub.tally, relay, Option.map_some, Option.getD_some, tally]
  rfl

theorem standing_onRelay (h : Hub) (f : Relay → Relay) (tally : ∀ r, (f r).tally = r.tally) :
    (h.onRelay f).standing = h.standing := by
  obtain ⟨loops, registered, relay, ledger, thread, journal, history, calls⟩ := h
  cases relay with
  | none => rfl
  | some r => exact standing_relay ⟨loops, registered, some r, ledger, thread, journal, history, calls⟩ r (f r) rfl (tally r)

theorem standing_passSerial (h : Hub) : h.passSerial.standing = h.standing := standing_onRelay h _ fun _ => rfl

theorem standing_noteDropped (h : Hub) (callback : Option (FreeCallback Action)) :
    (h.noteDropped callback).standing = h.standing := by
  obtain ⟨journal, dropped⟩ := h.noteDropped_cases callback
  rw [dropped]
  rfl

theorem standing_reclaim (h : Hub) (k : Handle) : (h.reclaim k).standing = h.standing := by
  obtain ⟨journal, reclaimed⟩ := h.reclaim_cases k
  rw [reclaimed]
  unfold standing tally
  cases h.relay <;> rfl

theorem standing_discard (h : Hub) (e : Event) : (h.discard e).standing = h.standing := by
  unfold discard
  split
  · rfl
  · rfl
  · exact standing_reclaim h _

theorem standing_complete (k : Handle) (h : Hub) : (h.complete k).standing = h.standing := by
  unfold complete
  split
  · rfl
  · next r relay =>
      split
      · exact standing_count h _ ⟨fun _ => rfl, fun _ => rfl, fun _ => rfl⟩
      · next parcel pool taken =>
          have retired : ({ h with relay := some { r with pool := pool, tally := r.tally.countCompletion } } : Hub).standing =
              h.standing := by
            simp only [standing, tally, relay]
            rfl
          simp only
          split
          · exact (standing_reclaim _ k).trans retired
          · split
            · next next queued => exact (standing_enqueue _ next _ _ queued).trans retired
            · refine (standing_reclaim _ k).trans (Eq.trans ?_ retired)
              exact standing_count _ RelayTally.countAbandoned ⟨fun _ => rfl, fun _ => rfl, fun _ => rfl⟩

theorem standing_completions (handles : List Handle) (h : Hub) :
    (handles.foldl (fun h k => h.complete k) h).standing = h.standing := by
  induction handles generalizing h with
  | nil => rfl
  | cons k rest ih => exact (ih _).trans (standing_complete k h)

theorem standing_requestLoad (h : Hub) (i : Nat) (app : AppId) (permissions : Permissions) (program : Program Action) :
    (h.requestLoad i app permissions program).2.standing = h.standing := by
  cases place : h.loops[i]? with
  | none => simp only [requestLoad, place]
  | some l =>
      have issued : (h.issued i app permissions l).standing = h.standing := standing_set h i 0 l l.issue.2 place rfl rfl
      rw [requestLoad_issued h i app permissions program l place]
      split
      · next next queued => exact (standing_enqueue _ next i _ queued).trans issued
      · exact issued

theorem standing_requestLoads (h : Hub) (i count : Nat) (app : AppId) (last : Reply) :
    (h.requestLoads i count app last).2.standing = h.standing := by
  induction count generalizing h app last with
  | zero => rfl
  | succ count ih => exact (ih _ _ _).trans (standing_requestLoad h i app Permissions.none .inert)

end Hub

def Action.IsApart : Action → Prop
  | .deliver _ _ | .retry _ | .stop _ _ => False
  | _ => True

namespace Stack

theorem standing_linked (known : Standing) (k : Handle) (h : Hub) (same : h.standing = known) :
    (h.complete k).standing = known :=
  (Hub.standing_complete k h).trans same

theorem standing_offer (m : Outgoing) (s : Stack) : (s.offer m).2.hub.standing = s.hub.standing := by
  unfold offer
  split
  · rfl
  · simp only
    split <;> exact Hub.standing_completions _ _

theorem standing_credit (badge : Badge) (woke : Bool) (s : Stack) : (s.credit badge woke).hub.standing = s.hub.standing := by
  unfold credit
  split
  · rfl
  · next r relay => simp [onHub, Hub.standing, Hub.tally, Hub.retries, relay, RelayTally.countAccepted]

theorem standing_reject (failure : SendFailure) (payload : Payload) (s : Stack) :
    (s.reject failure payload).2.hub.standing = s.hub.standing :=
  Hub.standing_count s.hub _ (by cases failure <;> exact ⟨fun _ => rfl, fun _ => rfl, fun _ => rfl⟩)

theorem standing_sendAs (badge : Badge) (d : Dispatch Action) (r : Relay) (s : Stack) (relay : s.hub.relay = some r) :
    (s.sendAs badge d r).2.hub.standing = s.hub.standing := by
  rcases sendAs_cases badge d s r with ⟨failure, refused⟩ | ⟨woke, k, pool, -, answered⟩
  · rw [refused, standing_reject]
    exact Hub.standing_noteDropped s.hub d.free
  · have offered := standing_offer ⟨k, d.message badge woke⟩ (s.onHub (·.lent pool r))
    have lent : (s.hub.lent pool r).standing = s.hub.standing := Hub.standing_relay s.hub r _ relay rfl
    rw [answered]
    split
    · next after taken =>
        rw [taken] at offered
        exact (standing_credit badge woke after).trans (offered.trans lent)
    · next after taken =>
        rw [taken] at offered
        rw [standing_reject, withdraw_cases]
        exact (Hub.standing_reclaim after.hub k).trans (offered.trans lent)

theorem standing_send (d : Dispatch Action) (s : Stack) : (s.send d).2.hub.standing = s.hub.standing := by
  rcases send_cases d s with same | ⟨r, badge, labels, relay, sent⟩
  · rw [same]
  · rw [sent]
    exact (Hub.standing_passSerial _).trans (standing_sendAs badge d r s relay)

theorem standing_haul (s : Stack) : s.haul.hub.standing = s.hub.standing := by
  unfold haul
  split
  · next u _ => exact Uplink.haul_keeps Hub.complete (·.standing = s.hub.standing) (standing_linked _) u s.hub rfl
  · rfl

theorem standing_flush (s : Stack) : s.flush.2.hub.standing = s.hub.standing := by
  unfold flush
  split
  · next u _ => exact Uplink.haul_keeps Hub.complete (·.standing = s.hub.standing) (standing_linked _) u s.hub rfl
  · rfl

theorem standing_shutdown (s : Stack) : s.shutdown.hub.standing = s.hub.standing := by
  unfold shutdown
  split
  · next u _ => exact Uplink.shutdown_keeps Hub.complete (·.standing = s.hub.standing) (standing_linked _) u s.hub rfl
  · rfl

theorem standing_uplink (c : UplinkCall) (u : Uplink) (s : Stack) : (s.onUplink c u).2.hub.standing = s.hub.standing := by
  cases c with
  | start =>
      simp only [onUplink]
      split <;> rfl
  | pump limit =>
      exact Uplink.pump_keeps Hub.complete (·.standing = s.hub.standing) (standing_linked _) limit u s.hub rfl
  | pause | resume | spoil | takeReceived => rfl

theorem standing_enqueue (s next : Stack) (i : Nat) (t : Task) (plain : t.retries = 0) (queued : s.enqueue i t = .ok next) :
    next.hub.standing = s.hub.standing := by
  unfold enqueue at queued
  split at queued
  · next hub taken =>
      cases queued
      have more := Hub.standing_enqueue s.hub hub i t taken
      rw [plain] at more
      exact more
  · cases queued

theorem standing_ifLoop (i : Nat) (f : RunLoop → Reply × Stack) (s : Stack)
    (each : ∀ l, (f l).2.hub.standing = s.hub.standing) : (s.ifLoop i f).2.hub.standing = s.hub.standing :=
  s.ifLoop_keeps (·.hub.standing = s.hub.standing) i f rfl fun l _ => each l

theorem standing_ifRelay (f : Stack → Reply × Stack) (s : Stack) (each : (f s).2.hub.standing = s.hub.standing) :
    (s.ifRelay f).2.hub.standing = s.hub.standing :=
  s.ifRelay_keeps (·.hub.standing = s.hub.standing) f rfl each

theorem standing_endCycle (s : Stack) : s.endCycle.hub.standing = s.hub.standing :=
  Hub.standing_onRelay s.hub _ fun _ => rfl

theorem standing_act (a : Action) (s : Stack) (apart : a.IsApart) : (s.act a).2.hub.standing = s.hub.standing := by
  cases a with
  | deliver | retry | stop => exact apart.elim
  | load i app permissions program =>
      exact standing_ifLoop i _ s fun _ => Hub.standing_requestLoad s.hub i app permissions program
  | loadMany i app count => exact standing_ifLoop i _ s fun _ => Hub.standing_requestLoads s.hub i count app .done
  | unload i app =>
      refine standing_ifLoop i _ s fun _ => ?_
      split
      · next next queued => exact standing_enqueue s next i _ rfl queued
      · rfl
  | find i app => exact standing_ifLoop i _ s fun _ => rfl
  | grab i app name =>
      refine standing_ifLoop i _ s fun _ => ?_
      split <;> rfl
  | enrol name app inst permissions => rfl
  | post i event =>
      refine standing_ifLoop i _ s fun _ => ?_
      split
      · next next queued => exact standing_enqueue s next i _ rfl queued
      · exact Hub.standing_discard s.hub event
  | defer i label script =>
      refine standing_ifLoop i _ s fun _ => ?_
      split
      · next next queued => exact standing_enqueue s next i _ rfl queued
      · rfl
  | send dispatch => exact standing_send dispatch s
  | complete r =>
      refine standing_ifRelay _ s ?_
      split
      · rfl
      · next k _ => exact Hub.standing_complete k s.hub
  | resetClaim => exact standing_ifRelay _ s (standing_endCycle s)
  | shutdown => exact standing_ifRelay _ s (standing_shutdown s)
  | flush => exact standing_ifRelay _ s (standing_flush s)
  | suspend =>
      simp only [act]
      split
      · exact standing_endCycle _
      · rfl
  | wake => rfl
  | uplink call =>
      simp only [act]
      split
      · next u _ => exact standing_uplink call u s
      · rfl
  | puppet call =>
      simp only [act]
      split
      · rfl
      · cases call <;> rfl
  | malformed toRelay =>
      simp only [act]
      split
      · exact standing_ifRelay _ s rfl
      · rfl

theorem standing_modify (i : Nat) (f : RunLoop → RunLoop) (s : Stack) (flag : ∀ l, (f l).stopRequested = l.stopRequested)
    (queue : ∀ l, (f l).queue = l.queue) : (s.modifyLoop i f).hub.standing = s.hub.standing :=
  Hub.standing_modify s.hub i f flag fun l => by rw [RunLoop.retries, queue]; rfl

theorem standing_next (i : Nat) (t : Task) (s next : Stack) (taken : s.next? i = some (t, next)) :
    s.hub.standing = next.hub.standing.wait t.retries := by
  obtain ⟨l, queue, place, waits, rfl⟩ := next_cases i t s next taken
  have bound := (List.getElem?_eq_some_iff.mp place).1
  have less := Hub.standing_set { s.hub with loops := s.hub.loops.set i { l with queue := queue } } i t.retries
    { l with queue := queue } l (List.getElem?_set_self bound) rfl (by simp [RunLoop.retries, waits, Nat.add_comm])
  simp only [List.set_set] at less
  have same : s.hub.loops.set i l = s.hub.loops := by
    rw [← (List.getElem?_eq_some_iff.mp place).2]
    exact List.set_getElem_self bound
  rw [same] at less
  exact less

theorem standing_noteStart (i : Nat) (badge : Badge) (program : Program Action) (s : Stack) :
    (s.noteStart i badge program).hub.standing = s.hub.standing := by
  unfold noteStart
  split <;> rfl

theorem standing_noteEnd (a : Loaded) (s : Stack) : (s.noteEnd a).hub.standing = s.hub.standing := by
  unfold noteEnd
  split <;> rfl

theorem standing_startTask (i : Nat) (t : Task) (s : Stack) (plain : t.retries = 0) :
    (s.startTask i t).2.2.hub.standing = s.hub.standing := by
  cases t with
  | event e =>
      have freed := standing_modify i RunLoop.freeEvent s (fun _ => rfl) fun _ => rfl
      simp only [startTask, startEvent]
      split
      · have counted := standing_modify i RunLoop.countDropped (s.modifyLoop i RunLoop.freeEvent) (fun _ => rfl) fun _ => rfl
        exact (Hub.standing_discard _ e).trans (counted.trans freed)
      · next badge program _ =>
          have set := standing_modify i (·.setProgram badge.inst program.nextScript.2) (s.modifyLoop i RunLoop.freeEvent)
            (fun _ => rfl) fun _ => rfl
          cases program <;> exact set.trans freed
  | job j =>
      cases j with
      | user | handBack => rfl
      | retry k n => cases plain
  | load badge program =>
      simp only [startTask, startLoad]
      split
      · rfl
      · exact standing_noteStart i badge program s
  | unload app =>
      have struck := standing_modify i (·.strike app) s (fun _ => rfl) fun _ => rfl
      simp only [startTask, startUnload]
      split
      · rfl
      · next badge _ =>
          split
          · exact struck
          · next a _ =>
              have evicted := standing_modify i (·.evict badge.inst) (s.modifyLoop i (·.strike app)) (fun _ => rfl) fun _ => rfl
              exact (standing_noteEnd a _).trans (evicted.trans struck)
  | stop => rfl

theorem standing_finishTask (i : Nat) (rest : Epilogue) (s : Stack) : (s.finishTask i rest).hub.standing = s.hub.standing := by
  cases rest with
  | nothing => rfl
  | install badge program =>
      simp only [finishTask]
      split
      · exact standing_modify i _ s (fun _ => rfl) fun _ => rfl
      · rfl
  | consume e => exact (Hub.standing_discard _ e).trans (standing_modify i _ s (fun _ => rfl) fun _ => rfl)
  | countJob => exact standing_modify i _ s (fun _ => rfl) fun _ => rfl
  | giveBack k =>
      refine (standing_modify i RunLoop.countJob (s.onHub fun h => (h.count RelayTally.countInvoked).reclaim k)
        (fun _ => rfl) fun _ => rfl).trans ?_
      exact (Hub.standing_reclaim _ k).trans (Hub.standing_count s.hub _ ⟨fun _ => rfl, fun _ => rfl, fun _ => rfl⟩)

theorem standing_dropTask (i : Nat) (s : Stack) : (s.dropTask i).hub.standing = s.hub.standing := by
  have lost : ∀ t next, s.next? i = some (t, next) → t.retries = 0 → next.hub.standing = s.hub.standing := by
    intro t next taken plain
    rw [standing_next i t s next taken, plain]
    rfl
  unfold dropTask
  split
  · rfl
  · rfl
  · next e next taken =>
      have counted := standing_modify i (fun l => l.freeEvent.countDropped) next (fun _ => rfl) fun _ => rfl
      exact (Hub.standing_discard _ e).trans (counted.trans (lost _ next taken rfl))
  · next t next notJob notEvent taken =>
      refine lost t next taken ?_
      cases t with
      | job j => exact (notJob j rfl).elim
      | event | load | unload | stop => rfl

end Stack

theorem Blueprint.build_standing (b : Blueprint) (s : Stack) (built : b.build = .ok s) :
    0 < b.registered ∧ s.hub.standing = ⟨true, b.registered, b.loops.map fun _ => false, 0, 0, 0, 0⟩ := by
  unfold build at built
  split at built
  · cases built
  · cases built
  · split at built
    · cases built
    · next some =>
        split at built
        · cases built
        · cases built
          refine ⟨Nat.pos_of_ne_zero fun none => some (by simp [none]), ?_⟩
          have idle : ∀ loops : List LoopSettings,
              total ((loops.map fun settings => ({ settings := settings } : RunLoop)).map RunLoop.retries) = 0 := by
            intro loops
            induction loops with
            | nil => rfl
            | cons settings rest ih => exact (Nat.zero_add _).trans ih
          have flags : (b.loops.map fun settings => ({ settings := settings } : RunLoop)).map (·.stopRequested) =
              b.loops.map fun _ => false := List.map_map
          simp only [Hub.standing, Hub.tally, Hub.retries, idle, flags]
          rfl

def Scene.Retries (m : Move) (c : Scene) (k : Handle) (next : Stack) : Prop :=
  ∃ i n, m = .take i ∧ c.stack.next? i = some (.job (.retry k n), next)

namespace Scene

theorem move_retries (m : Move) (c : Scene) (k : Handle) (next : Stack) (retries : c.Retries m k next) :
    (c.move m).stack.hub = (next.hub.retry k).2 ∧ c.stack.hub.standing = next.hub.standing.wait 1 := by
  obtain ⟨i, n, rfl, taken⟩ := retries
  refine ⟨?_, Stack.standing_next i _ c.stack next taken⟩
  simp only [move, take, taken]
  rfl

theorem standing_move (m : Move) (c : Scene) (kept : m ≠ .dropRelay) (apart : ∀ a, m = .act a → a.IsApart)
    (idle : ∀ k next, ¬c.Retries m k next) : (c.move m).stack.hub.standing = c.stack.hub.standing := by
  have modified : ∀ (i : Nat) (f : RunLoop → RunLoop), (∀ l, (f l).stopRequested = l.stopRequested) →
      (∀ l, (f l).queue = l.queue) → (c.stack.modifyLoop i f).hub.standing = c.stack.hub.standing :=
    fun i f flag queue => Stack.standing_modify i f c.stack flag queue
  cases m with
  | act a => exact Stack.standing_act a c.stack (apart a rfl)
  | take i =>
      cases taken : c.stack.next? i with
      | none => simp only [move, take, taken]
      | some found =>
          obtain ⟨t, next⟩ := found
          have plain : t.retries = 0 := by
            cases t with
            | job j =>
                cases j with
                | retry k n => exact absurd ⟨i, n, rfl, taken⟩ (idle k next)
                | user | handBack => rfl
            | event | load | unload | stop => rfl
          have left := Stack.standing_next i t c.stack next taken
          rw [plain] at left
          simp only [move, take, taken]
          exact (Stack.standing_startTask i t next plain).trans left.symm
  | finish place =>
      simp only [move, finish]
      split
      · rfl
      · exact Stack.standing_finishTask _ _ c.stack
  | haul => exact Stack.standing_haul c.stack
  | turn | note | tell => rfl
  | occupy i | shut i | clearRoster i => exact modified i _ (fun _ => rfl) fun _ => rfl
  | quit i place =>
      obtain ⟨journal, calls, left⟩ := Stack.quit_cases i place c.stack
      simp only [move, onStack, left]
      exact modified i (·.dismiss place) (fun _ => rfl) fun _ => rfl
  | drop i =>
      simp only [move]
      split
      · exact Stack.standing_dropTask i c.stack
      · rfl
  | detach i =>
      simp only [move]
      split
      · exact modified i _ (fun _ => rfl) fun _ => rfl
      · rfl
  | dropRelay => exact absurd rfl kept

end Scene

end HubRelay
