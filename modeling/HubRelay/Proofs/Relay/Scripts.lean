import HubRelay.Proofs.Relay.Moves

/-! The scripts that a stack carries, in its queues, its nanoapps and its pool. Those that come in with lawful
actions are lawful, and so are the actions that a loop will take from them. -/

set_option autoImplicit false

namespace HubRelay

def Program.actions (p : Program Action) : Script :=
  match p with
  | .scripted _ onStart onEvent onEnd => onStart ++ onEvent.flatten ++ onEnd
  | .plain | .inert => []

def FreeCallback.actions (callback : Option (FreeCallback Action)) : Script := (callback.map (·.script)).getD []

def Action.carried : Action → Script
  | .load _ _ _ program => program.actions
  | .defer _ _ script => script
  | .send d => FreeCallback.actions d.free
  | _ => []

inductive Action.Tame : Action → Prop where
  | intro (a : Action) (lawful : a.Lawful) (carried : ∀ b ∈ a.carried, b.Tame) : a.Tame

def Script.Tame (script : Script) : Prop := ∀ a ∈ script, a.Tame

theorem Action.tame_lawful (a : Action) (tame : a.Tame) : a.Lawful := by
  cases tame with
  | intro _ lawful _ => exact lawful

theorem Action.tame_carried (a : Action) (tame : a.Tame) : Script.Tame a.carried := by
  cases tame with
  | intro _ _ carried => exact carried

theorem Script.tame_nil : Script.Tame [] := fun _ member => nomatch member

theorem Script.tame_append (script more : Script) : Script.Tame (script ++ more) ↔ Script.Tame script ∧ Script.Tame more :=
  List.forall_mem_append

namespace Program

variable (p : Program Action) (tame : Script.Tame p.actions)

include tame

theorem tame_start : Script.Tame p.startScript ∧ Script.Tame p.afterStart.actions := by
  cases p with
  | scripted starts onStart onEvent onEnd =>
      simp only [actions, Script.tame_append] at tame
      refine ⟨tame.1.1, ?_⟩
      simp only [afterStart, actions, Script.tame_append]
      exact ⟨⟨Script.tame_nil, tame.1.2⟩, tame.2⟩
  | plain | inert => exact ⟨Script.tame_nil, tame⟩

theorem tame_next : Script.Tame p.nextScript.1 ∧ Script.Tame p.nextScript.2.actions := by
  cases p with
  | scripted starts onStart onEvent onEnd =>
      cases onEvent with
      | nil => exact ⟨Script.tame_nil, tame⟩
      | cons script rest =>
          simp only [actions, List.flatten_cons, Script.tame_append] at tame
          refine ⟨tame.1.2.1, ?_⟩
          simp only [nextScript, actions, Script.tame_append]
          exact ⟨⟨tame.1.1, tame.1.2.2⟩, tame.2⟩
  | plain | inert => exact ⟨Script.tame_nil, tame⟩

theorem tame_end : Script.Tame p.endScript := by
  cases p with
  | scripted starts onStart onEvent onEnd => exact ((Script.tame_append _ _).mp tame).2
  | plain | inert => exact Script.tame_nil

end Program

def Task.script : Task → Script
  | .load _ program => program.actions
  | .job (.user _ script) => script
  | .job (.handBack _ _ callback _) => callback.script
  | _ => []

structure RunLoop.Tame (l : RunLoop) : Prop where
  queue : ∀ t ∈ l.queue.toList, Script.Tame t.script
  apps : ∀ a ∈ l.apps, Script.Tame a.program.actions
  leaving : ∀ a ∈ l.leaving, Script.Tame a.program.actions

structure Hub.Tame (h : Hub) : Prop where
  loops : ∀ l ∈ h.loops, l.Tame
  pool : ∀ r, h.relay = some r → ∀ p ∈ r.pool.liveValues, Script.Tame (FreeCallback.actions p.callback)

namespace RunLoop

theorem tame_push (t : Task) (l next : RunLoop) (tame : l.Tame) (carried : Script.Tame t.script)
    (queue : next.queue = l.queue.push t) (apps : next.apps = l.apps) (leaving : next.leaving = l.leaving) :
    next.Tame := by
  constructor
  · intro t' member
    rw [queue, Fifo.toList_push] at member
    rcases List.mem_append.mp member with old | new
    · exact tame.queue t' old
    · rw [List.mem_singleton.mp new]
      exact carried
  · rw [apps]
    exact tame.apps
  · rw [leaving]
    exact tame.leaving

theorem tame_stop (caller : Option Thread) (l : RunLoop) (tame : l.Tame) : (l.stop caller).Tame := by
  unfold stop
  split
  · exact ⟨tame.queue, tame.apps, tame.leaving⟩
  · split
    · exact tame_push .stop l _ tame Script.tame_nil rfl rfl rfl
    · exact tame

end RunLoop

namespace SlotPool

variable {α : Type}

theorem mem_live (a : α) (p : SlotPool α) : a ∈ p.liveValues ↔ ∃ slot ∈ p.slots.toList, slot.state = .live a := by
  unfold liveValues
  rw [List.mem_filterMap]
  constructor
  · rintro ⟨slot, member, found⟩
    refine ⟨slot, member, ?_⟩
    split at found
    · next b state =>
        cases found
        exact state
    · cases found
  · rintro ⟨slot, member, state⟩
    exact ⟨slot, member, by simp only [state]⟩

theorem live_set (a : α) (p : SlotPool α) (i : Nat) (slot : Slot α) (free : List Nat)
    (member : a ∈ (SlotPool.mk (p.slots.setIfInBounds i slot) free).liveValues) : slot.state = .live a ∨ a ∈ p.liveValues := by
  obtain ⟨other, listed, state⟩ := (mem_live a _).mp member
  rw [Array.toList_setIfInBounds] at listed
  rcases List.mem_or_eq_of_mem_set listed with old | rfl
  · exact .inr ((mem_live a p).mpr ⟨other, old, state⟩)
  · exact .inl state

theorem live_allocate (a b : α) (p next : SlotPool α) (k : Handle) (allocated : p.allocate b = some (k, next))
    (member : a ∈ next.liveValues) : a = b ∨ a ∈ p.liveValues := by
  obtain ⟨slots, free⟩ := p
  cases free with
  | nil => cases allocated
  | cons i free =>
      cases allocated
      rcases live_set a ⟨slots, i :: free⟩ i _ free member with fresh | old
      · exact .inl (SlotState.live.inj fresh).symm
      · exact .inr old

theorem live_reclaimed (a : α) (p : SlotPool α) (k : Handle) (member : a ∈ (p.reclaimed k).liveValues) : a ∈ p.liveValues := by
  have vacated : a ∈ (p.vacate k).liveValues → a ∈ p.liveValues := by
    intro listed
    rcases live_set a p k.slot ⟨k.generation, .vacant⟩ _ listed with new | old
    · cases new
    · exact old
  unfold reclaimed release at member
  cases state : p.state? k with
  | none => simpa [state] using member
  | some held =>
      cases held with
      | vacant => simpa [state] using member
      | live b => exact vacated (by simpa [state] using member)
      | retiring => exact vacated (by simpa [state] using member)

theorem live_retire (p next : SlotPool α) (k : Handle) (b : α) (retired : p.retire k = some (b, next)) :
    b ∈ p.liveValues ∧ ∀ a ∈ next.liveValues, a ∈ p.liveValues := by
  unfold retire at retired
  split at retired
  · next held state =>
      cases retired
      constructor
      · unfold state? at state
        split at state
        · next slot place =>
            split at state
            · exact (mem_live b p).mpr ⟨slot, Array.mem_toList_iff.mpr (Array.mem_of_getElem? place), Option.some.inj state⟩
            · cases state
        · cases state
      · intro a member
        rcases live_set a p k.slot ⟨k.generation, .retiring⟩ p.free member with new | old
        · cases new
        · exact old
  · cases retired

end SlotPool

namespace Hub

theorem tame_view (h h' : Hub) (tame : h.Tame) (loops : h'.loops = h.loops)
    (pool : ∀ r', h'.relay = some r' → ∃ r, h.relay = some r ∧ ∀ p ∈ r'.pool.liveValues, p ∈ r.pool.liveValues) :
    h'.Tame where
  loops := by
    rw [loops]
    exact tame.loops
  pool := by
    intro r' relay' p member
    obtain ⟨r, relay, within⟩ := pool r' relay'
    exact tame.pool r relay p (within p member)

theorem tame_same (h h' : Hub) (tame : h.Tame) (loops : h'.loops = h.loops) (relay : h'.relay = h.relay) : h'.Tame :=
  tame_view h h' tame loops fun r' relay' => ⟨r', relay ▸ relay', fun _ => id⟩

theorem tame_record (h : Hub) (x : Happening) (tame : h.Tame) : (h.record x).Tame := tame_same h _ tame rfl rfl

theorem tame_call (h : Hub) (i : Nat) (x : Upcall) (tame : h.Tame) : (h.call i x).Tame := tame_same h _ tame rfl rfl

theorem tame_note (h : Hub) (n : Note) (tame : h.Tame) : (h.note n).Tame := tame_same h _ tame rfl rfl

theorem tame_set (h : Hub) (i : Nat) (l : RunLoop) (tame : h.Tame) (next : l.Tame) :
    ({ h with loops := h.loops.set i l } : Hub).Tame where
  loops := by
    intro l' member
    rcases List.mem_or_eq_of_mem_set member with old | rfl
    · exact tame.loops l' old
    · exact next
  pool := tame.pool

theorem tame_modify (h : Hub) (i : Nat) (f : RunLoop → RunLoop) (tame : h.Tame) (keeps : ∀ l : RunLoop, l.Tame → (f l).Tame) :
    (h.modifyLoop i f).Tame := by
  rcases modify_cases h i f with ⟨-, same⟩ | ⟨l, place, change⟩
  · rw [same]
    exact tame
  · rw [change]
    exact tame_set h i (f l) tame (keeps l (tame.loops l (List.mem_of_getElem? place)))

theorem tame_enqueue (h next : Hub) (i : Nat) (t : Task) (tame : h.Tame) (queued : h.enqueue i t = .ok next)
    (carried : Script.Tame t.script) : next.Tame := by
  obtain ⟨l, after, place, taken, rfl⟩ := enqueue_cases h next i t queued
  have before := tame.loops l (List.mem_of_getElem? place)
  refine tame_set h i after tame ?_
  rw [RunLoop.enqueue_cases t l after taken]
  exact RunLoop.tame_push t l _ before carried rfl rfl rfl

theorem tame_onRelay (h : Hub) (f : Relay → Relay) (tame : h.Tame) (pool : ∀ r, (f r).pool = r.pool) : (h.onRelay f).Tame := by
  refine tame_view h _ tame rfl fun r' relay' => ?_
  obtain ⟨r, relay, rfl⟩ := Option.map_eq_some_iff.mp relay'
  exact ⟨r, relay, by simp [pool]⟩

theorem tame_count (h : Hub) (f : RelayTally → RelayTally) (tame : h.Tame) : (h.count f).Tame :=
  tame_onRelay h _ tame fun _ => rfl

theorem tame_noteDropped (h : Hub) (callback : Option (FreeCallback Action)) (tame : h.Tame) : (h.noteDropped callback).Tame := by
  obtain ⟨journal, dropped⟩ := h.noteDropped_cases callback
  rw [dropped]
  exact ⟨tame.loops, tame.pool⟩

theorem tame_reclaim (h : Hub) (k : Handle) (tame : h.Tame) : (h.reclaim k).Tame := by
  obtain ⟨journal, reclaimed⟩ := h.reclaim_cases k
  rw [reclaimed]
  refine tame_view h _ tame rfl fun r' relay' => ?_
  obtain ⟨r, relay, rfl⟩ := Option.map_eq_some_iff.mp relay'
  exact ⟨r, relay, fun p => SlotPool.live_reclaimed p r.pool k⟩

theorem tame_discard (h : Hub) (e : Event) (tame : h.Tame) : (h.discard e).Tame := by
  unfold discard
  split
  · exact tame
  · exact tame_note h _ tame
  · exact tame_reclaim h _ tame

theorem tame_lent (h : Hub) (pool : SlotPool Parcel) (r : Relay) (p : Parcel) (k : Handle) (tame : h.Tame)
    (relay : h.relay = some r) (allocated : r.pool.allocate p = some (k, pool))
    (carried : Script.Tame (FreeCallback.actions p.callback)) : (h.lent pool r).Tame where
  loops := tame.loops
  pool := by
    intro r' relay' p' member
    cases relay'
    rcases SlotPool.live_allocate p' p r.pool pool k allocated member with rfl | old
    · exact carried
    · exact tame.pool r relay p' old

theorem tame_complete (k : Handle) (h : Hub) (tame : h.Tame) : (h.complete k).Tame := by
  cases relay : h.relay with
  | none => rwa [complete, relay]
  | some r =>
      cases taken : r.pool.retire k with
      | none =>
          simp only [complete, relay, taken]
          exact tame_count h _ tame
      | some found =>
          obtain ⟨parcel, pool⟩ := found
          obtain ⟨listed, within⟩ := SlotPool.live_retire r.pool pool k parcel taken
          have held := tame.pool r relay parcel listed
          have retired : ({ h with relay := some { r with pool := pool, tally := r.tally.countCompletion } } : Hub).Tame := by
            refine tame_view h _ tame rfl fun r' relay' => ?_
            cases relay'
            exact ⟨r, relay, within⟩
          simp only [complete, relay, taken]
          cases heard : parcel.callback with
          | none => exact tame_record _ _ (tame_reclaim _ k retired)
          | some callback =>
              rw [heard] at held
              simp only
              split
              · next next queued =>
                  exact tame_record _ _ (tame_enqueue _ next _ _ retired queued held)
              · exact tame_record _ _ (tame_reclaim _ k (tame_count _ _ (tame_note _ _ retired)))

theorem tame_attempt (h : Hub) (k : Handle) (parcel : Parcel) (tame : h.Tame) : (h.attempt k parcel).2.Tame := by
  rcases attempt_cases h k parcel with ⟨-, unknown⟩ | ⟨i, badge, -, ⟨next, queued, posted⟩ | ⟨failure, -, refused⟩⟩
  · rwa [unknown]
  · rw [posted]
    exact tame_record next _ (tame_enqueue h next i _ tame queued Script.tame_nil)
  · rw [refused]
    exact tame_reclaim h k tame

theorem tame_route (h : Hub) (a : Arrival) (r : Relay) (tame : h.Tame) (relay : h.relay = some r) : (h.route a r).2.Tame := by
  rcases route_cases h r a with ⟨failure, rejected⟩ | ⟨k, pool, allocated, routed⟩
  · rwa [rejected]
  · have lent := tame_lent h pool r _ k tame relay allocated Script.tame_nil
    have tried := tame_attempt _ k ⟨a.message, none, r.serial⟩ lent
    rw [routed]
    split
    · next after attempted => rwa [attempted] at tried
    · next after attempted => rwa [attempted] at tried
    · next after attempted =>
        rw [attempted] at tried
        unfold putOff
        split
        · next next queued => exact tame_enqueue after next 0 _ tried queued Script.tame_nil
        · exact tame_reclaim after k tried

theorem tame_receive (h next : Hub) (a : Arrival) (routing : Routing) (tame : h.Tame)
    (received : h.receive a = some (routing, next)) : next.Tame := by
  obtain ⟨r, relay, equal⟩ := Option.map_eq_some_iff.mp received
  cases equal
  exact tame_onRelay _ _ (tame_record _ _ (tame_count _ _ (tame_route h a r tame relay))) fun _ => rfl

theorem tame_retry (h : Hub) (k : Handle) (tame : h.Tame) : (h.retry k).2.Tame := by
  unfold retry
  split
  · exact tame
  · next parcel _ =>
      have tried := tame_attempt h k parcel tame
      split
      · next after attempted =>
          rw [attempted] at tried
          exact tame_count after _ tried
      · next after attempted =>
          rw [attempted] at tried
          exact tame_record after _ tried
      · next after attempted =>
          rw [attempted] at tried
          exact tame_record _ _ (tame_reclaim _ k (tame_count after _ tried))

theorem tame_requestLoad (h : Hub) (i : Nat) (app : AppId) (permissions : Permissions) (program : Program Action)
    (tame : h.Tame) (carried : Script.Tame program.actions) : (h.requestLoad i app permissions program).2.Tame := by
  cases place : h.loops[i]? with
  | none =>
      simp only [requestLoad, place]
      exact tame
  | some l =>
      have before := tame.loops l (List.mem_of_getElem? place)
      have issued : (h.issued i app permissions l).Tame :=
        tame_same _ _ (tame_set h i l.issue.2 tame ⟨before.queue, before.apps, before.leaving⟩) rfl rfl
      rw [requestLoad_issued h i app permissions program l place]
      split
      · next next queued => exact tame_enqueue _ next i _ issued queued carried
      · exact issued

theorem tame_requestLoads (h : Hub) (i count : Nat) (app : AppId) (last : Reply) (tame : h.Tame) :
    (h.requestLoads i count app last).2.Tame := by
  induction count generalizing h app last with
  | zero => exact tame
  | succ count ih => exact ih _ _ _ (tame_requestLoad h i app Permissions.none .inert tame Script.tame_nil)

end Hub

namespace Stack

def Tame (s : Stack) : Prop := s.hub.Tame

theorem tame_sendAs (badge : Badge) (d : Dispatch Action) (r : Relay) (s : Stack) (linked : s.Linked) (tame : s.Tame)
    (relay : s.hub.relay = some r) (carried : Script.Tame (FreeCallback.actions d.free)) : (s.sendAs badge d r).2.Tame := by
  rcases sendAs_cases badge d s r with ⟨failure, refused⟩ | ⟨woke, k, pool, allocated, answered⟩
  · rw [refused]
    exact Hub.tame_count _ _ (Hub.tame_noteDropped s.hub d.free tame)
  · have lent : (s.hub.lent pool r).Tame := Hub.tame_lent s.hub pool r _ k tame relay allocated carried
    rw [answered]
    obtain ⟨u, ⟨offered, -⟩ | ⟨offered, -⟩⟩ := offer_cases ⟨k, d.message badge woke⟩ (s.onHub (·.lent pool r)) linked
    · rw [offered]
      refine Hub.tame_view _ _ lent rfl fun r' relay' => ?_
      cases relay'
      exact ⟨_, rfl, fun _ => id⟩
    · rw [offered]
      simp only
      rw [withdraw_cases]
      exact Hub.tame_count _ _ (Hub.tame_reclaim _ k lent)

theorem tame_send (d : Dispatch Action) (s : Stack) (linked : s.Linked) (tame : s.Tame)
    (carried : Script.Tame (FreeCallback.actions d.free)) : (s.send d).2.Tame := by
  rcases send_cases d s with same | ⟨r, badge, labels, relay, sent⟩
  · rwa [same]
  · rw [sent]
    exact Hub.tame_onRelay _ _ (Hub.tame_record _ _ (tame_sendAs badge d r s linked tame relay carried)) fun _ => rfl

theorem tame_endCycle (s : Stack) (tame : s.Tame) : s.endCycle.Tame := Hub.tame_onRelay s.hub _ tame fun _ => rfl

theorem tame_ifLoop (i : Nat) (f : RunLoop → Reply × Stack) (s : Stack) (tame : s.Tame) (each : ∀ l, (f l).2.Tame) :
    (s.ifLoop i f).2.Tame :=
  s.ifLoop_keeps Tame i f tame fun l _ => each l

theorem tame_ifRelay (f : Stack → Reply × Stack) (s : Stack) (tame : s.Tame) (each : (f s).2.Tame) :
    (s.ifRelay f).2.Tame :=
  s.ifRelay_keeps Tame f tame each

theorem tame_enqueue (s next : Stack) (i : Nat) (t : Task) (tame : s.Tame) (queued : s.enqueue i t = .ok next)
    (carried : Script.Tame t.script) : next.Tame := by
  unfold enqueue at queued
  split at queued
  · next hub taken =>
      cases queued
      exact Hub.tame_enqueue s.hub hub i t tame taken carried
  · cases queued

theorem tame_act (a : Action) (s : Stack) (lawful : a.Tame) (linked : s.Linked) (tame : s.Tame) : (s.act a).2.Tame := by
  have carried := a.tame_carried lawful
  have allowed := a.tame_lawful lawful
  obtain ⟨u, link⟩ := linked
  cases a with
  | load i app permissions program =>
      exact tame_ifLoop i _ s tame fun _ => Hub.tame_requestLoad s.hub i app permissions program tame carried
  | loadMany i app count =>
      exact tame_ifLoop i _ s tame fun _ => Hub.tame_requestLoads s.hub i count app .done tame
  | unload i app =>
      refine tame_ifLoop i _ s tame fun _ => ?_
      split
      · next next queued => exact tame_enqueue s next i _ tame queued Script.tame_nil
      · exact tame
  | find i app => exact tame_ifLoop i _ s tame fun _ => tame
  | grab i app name =>
      refine tame_ifLoop i _ s tame fun _ => ?_
      split <;> exact tame
  | enrol name app inst permissions => exact Hub.tame_same s.hub _ tame rfl rfl
  | post i event =>
      refine tame_ifLoop i _ s tame fun _ => ?_
      split
      · next next queued => exact tame_enqueue s next i _ tame queued Script.tame_nil
      · exact Hub.tame_discard s.hub event tame
  | defer i label script =>
      refine tame_ifLoop i _ s tame fun _ => ?_
      split
      · next next queued => exact tame_enqueue s next i _ tame queued carried
      · exact Hub.tame_note s.hub _ tame
  | stop i elsewhere =>
      exact tame_ifLoop i _ s tame fun _ => Hub.tame_modify s.hub i _ tame (RunLoop.tame_stop _)
  | send dispatch => exact tame_send dispatch s ⟨u, link⟩ tame carried
  | complete r => exact allowed.elim
  | retry r => exact allowed.elim
  | deliver arrival viaLink =>
      simp only [act]
      split
      · next routing hub received => exact Hub.tame_receive s.hub hub arrival routing tame received
      · exact tame
  | resetClaim => exact tame_ifRelay _ s tame (tame_endCycle s tame)
  | shutdown =>
      refine tame_ifRelay _ s tame ?_
      simp only [shutdown, link]
      exact Uplink.shutdown_keeps Hub.complete Hub.Tame Hub.tame_complete u s.hub tame
  | flush =>
      refine tame_ifRelay _ s tame ?_
      simp only [flush, link]
      exact Uplink.haul_keeps Hub.complete Hub.Tame Hub.tame_complete u s.hub tame
  | suspend =>
      simp only [act]
      split
      · exact tame_endCycle _ tame
      · exact tame
  | wake => exact tame
  | uplink call =>
      simp only [act, link]
      cases call with
      | start =>
          simp only [onUplink]
          split <;> exact tame
      | pump limit => exact Uplink.pump_keeps Hub.complete Hub.Tame Hub.tame_complete limit u s.hub tame
      | pause | resume | spoil | takeReceived => exact tame
  | puppet call =>
      simp only [act, link]
      exact tame
  | malformed toRelay =>
      simp only [act]
      split
      · exact tame_ifRelay _ s tame tame
      · exact tame

theorem tame_haul (s : Stack) (tame : s.Tame) : s.haul.Tame := by
  unfold haul
  split
  · next u link => exact Uplink.haul_keeps Hub.complete Hub.Tame Hub.tame_complete u s.hub tame
  · exact tame

theorem tame_modify (i : Nat) (f : RunLoop → RunLoop) (s : Stack) (tame : s.Tame)
    (keeps : ∀ l : RunLoop, l.Tame → (f l).Tame) : (s.modifyLoop i f).Tame :=
  Hub.tame_modify s.hub i f tame keeps

theorem tame_next (i : Nat) (t : Task) (s next : Stack) (tame : s.Tame) (taken : s.next? i = some (t, next)) :
    Script.Tame t.script ∧ next.Tame := by
  obtain ⟨l, queue, place, waits, rfl⟩ := next_cases i t s next taken
  have held := tame.loops l (List.mem_of_getElem? place)
  refine ⟨held.queue t (by rw [waits]; exact List.mem_cons_self), Hub.tame_set s.hub i _ tame ⟨fun t' member => ?_, held.apps, held.leaving⟩⟩
  exact held.queue t' (by rw [waits]; exact List.mem_cons_of_mem t member)

end Stack

def Epilogue.script : Epilogue → Script
  | .install _ program => program.actions
  | _ => []

structure Started (outcome : Script × Epilogue × Stack) : Prop where
  script : Script.Tame outcome.1
  rest : Script.Tame outcome.2.1.script
  stack : outcome.2.2.Tame

namespace Stack

theorem started_idle (rest : Epilogue) (s : Stack) (plain : rest.script = []) (tame : s.Tame) : Started ([], rest, s) :=
  ⟨Script.tame_nil, by rw [plain]; exact Script.tame_nil, tame⟩

theorem loaded_tame (i : Nat) (inst : InstanceId) (a : Loaded) (s : Stack) (tame : s.Tame)
    (loaded : (s.loop? i).bind (·.loaded? inst) = some a) : Script.Tame a.program.actions := by
  obtain ⟨l, place, found⟩ := Option.bind_eq_some_iff.mp loaded
  exact (tame.loops l (List.mem_of_getElem? place)).apps a (List.mem_of_find?_eq_some found)

theorem tame_startEvent (i : Nat) (e : Event) (s : Stack) (tame : s.Tame) : Started (s.startEvent i e) := by
  have freed : (s.modifyLoop i RunLoop.freeEvent).Tame := tame_modify i _ s tame fun _ held => ⟨held.queue, held.apps, held.leaving⟩
  unfold startEvent
  simp only
  split
  · have counted := tame_modify i RunLoop.countDropped _ freed fun _ held => ⟨held.queue, held.apps, held.leaving⟩
    exact started_idle _ _ rfl (Hub.tame_discard _ e (Hub.tame_record _ _ (Hub.tame_call _ i _ counted)))
  · next badge program loaded =>
      obtain ⟨script, later⟩ := program.tame_next (loaded_tame i e.target ⟨badge, program⟩ _ freed loaded)
      have advanced : ((s.modifyLoop i RunLoop.freeEvent).modifyLoop i
          (·.setProgram badge.inst program.nextScript.2)).Tame := by
        refine tame_modify i _ _ freed fun l held => ⟨held.queue, fun a member => ?_, held.leaving⟩
        obtain ⟨b, listed, rfl⟩ := List.mem_map.mp member
        split
        · exact later
        · exact held.apps b listed
      refine ⟨script, Script.tame_nil, Hub.tame_call _ _ _ (Hub.tame_record _ _ ?_)⟩
      cases program with
      | scripted | plain => exact Hub.tame_note _ _ advanced
      | inert => exact advanced

theorem tame_startJob (j : Job) (s : Stack) (tame : s.Tame) (carried : Script.Tame (Task.job j).script) :
    Started (s.startJob j) := by
  cases j with
  | user label script => exact ⟨carried, Script.tame_nil, Hub.tame_note s.hub _ tame⟩
  | handBack k n callback payload =>
      exact ⟨carried, Script.tame_nil, Hub.tame_record _ _ (Hub.tame_note s.hub _ tame)⟩
  | retry k n => exact started_idle _ _ rfl (Hub.tame_retry s.hub k tame)

theorem tame_startLoad (i : Nat) (badge : Badge) (program : Program Action) (s : Stack) (tame : s.Tame)
    (carried : Script.Tame program.actions) : Started (s.startLoad i badge program) := by
  unfold startLoad
  split
  · exact started_idle _ _ rfl tame
  · refine ⟨(program.tame_start carried).1, carried, Hub.tame_call _ i _ ?_⟩
    unfold noteStart
    split
    · exact Hub.tame_note s.hub _ tame
    · exact tame

theorem tame_noteEnd (a : Loaded) (s : Stack) (tame : s.Tame) : (s.noteEnd a).Tame := by
  unfold noteEnd
  split
  · exact Hub.tame_note s.hub _ tame
  · exact tame

theorem tame_shut (i : Nat) (s : Stack) (tame : s.Tame) : (s.shut i).Tame :=
  tame_modify i RunLoop.shut s tame fun _ held => ⟨held.queue, fun _ member => (nomatch member), held.apps⟩

theorem tame_quit (i place : Nat) (s : Stack) (tame : s.Tame) :
    Script.Tame (s.quit i place).1 ∧ (s.quit i place).2.Tame := by
  have left : (s.modifyLoop i (·.dismiss place)).Tame := tame_modify i _ s tame fun _ held =>
    ⟨held.queue, held.apps, fun a member => held.leaving a (List.mem_of_mem_eraseIdx member)⟩
  unfold quit
  split
  · exact ⟨Script.tame_nil, left⟩
  · next a there =>
      have carried : Script.Tame a.program.actions := by
        cases here : s.loop? i with
        | none => simp [leaving, here] at there
        | some l =>
            simp only [leaving, here, Option.map_some, Option.getD_some] at there
            exact (tame.loops l (List.mem_of_getElem? here)).leaving a (List.mem_of_getElem? there)
      exact ⟨a.program.tame_end carried, Hub.tame_call _ i _ (tame_noteEnd a _ left)⟩

theorem tame_startUnload (i : Nat) (app : AppId) (s : Stack) (tame : s.Tame) : Started (s.startUnload i app) := by
  unfold startUnload
  split
  · exact started_idle _ _ rfl tame
  · next badge _ =>
      have struck : (s.modifyLoop i (·.strike app)).Tame := tame_modify i _ s tame fun _ held => ⟨held.queue, held.apps, held.leaving⟩
      simp only
      split
      · exact started_idle _ _ rfl struck
      · next a loaded =>
          refine ⟨a.program.tame_end (loaded_tame i badge.inst a _ struck loaded), Script.tame_nil,
            Hub.tame_call _ i _ (tame_noteEnd a _ ?_)⟩
          exact tame_modify i _ _ struck fun l held =>
            ⟨held.queue, fun b member => held.apps b (List.mem_filter.mp member).1, held.leaving⟩

theorem tame_startTask (i : Nat) (t : Task) (s : Stack) (tame : s.Tame) (carried : Script.Tame t.script) :
    Started (s.startTask i t) := by
  cases t with
  | event e => exact tame_startEvent i e s tame
  | job j => exact tame_startJob j s tame carried
  | load badge program => exact tame_startLoad i badge program s tame carried
  | unload app => exact tame_startUnload i app s tame
  | stop => exact started_idle _ _ rfl tame

theorem tame_finishTask (i : Nat) (rest : Epilogue) (s : Stack) (tame : s.Tame) (carried : Script.Tame rest.script) :
    (s.finishTask i rest).Tame := by
  cases rest with
  | nothing => exact tame
  | install badge program =>
      refine Hub.tame_call _ i _ ?_
      split
      · refine tame_modify i _ s tame fun l held => ⟨held.queue, fun a member => ?_, held.leaving⟩
        rcases RunLoop.mem_placeApp _ a _ member with rfl | old
        · exact (program.tame_start carried).2
        · exact held.apps a old
      · exact tame
  | consume e => exact Hub.tame_discard _ e (tame_modify i _ s tame fun _ held => ⟨held.queue, held.apps, held.leaving⟩)
  | countJob => exact tame_modify i _ s tame fun _ held => ⟨held.queue, held.apps, held.leaving⟩
  | giveBack k =>
      exact tame_modify i _ _ (Hub.tame_reclaim _ k (Hub.tame_count s.hub _ tame)) fun _ held => ⟨held.queue, held.apps, held.leaving⟩

end Stack

end HubRelay
