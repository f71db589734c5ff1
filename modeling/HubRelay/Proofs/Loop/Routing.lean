import Mathlib.Data.List.Permutation
import HubRelay.Proofs.Loop.Lifecycle
import HubRelay.Proofs.Relay.Guises

/-! Every nanoapp that is asked for gets its own events, in order, while it serves, and none before or after. -/

set_option autoImplicit false

namespace HubRelay

namespace Seat

theorem housed_turn (σ σ' : Stage) (s s' : Seat) (turn : Turn σ σ' s s') (registered : s'.Registered σ')
    (housed : s.Housed σ) : s'.Housed σ' := by
  have begun : ∀ t, σ.begin (some t) = some σ' → σ ≠ .ending := by
    rintro t begins rfl
    cases begins
  have concluded : σ.conclude = some σ' → σ ≠ .ending := by
    rintro concludes rfl
    cases concludes
  have left : σ' ≠ .ending → s'.loop.leaving = [] := by
    intro steady
    cases turn with
    | rest => exact housed.left steady
    | pass | miss | load | unload | strike | skip | drain | drop | leave => exact housed.left (by decide)
    | job j queue waits begins => exact housed.left (begun _ begins)
    | install badge program hand held starts concludes => exact housed.left (concluded concludes)
    | decline badge program hand held refuses concludes => exact housed.left (concluded concludes)
    | quit hand held concludes => exact housed.left (concluded concludes)
    | consume e hand held concludes => exact housed.left (concluded concludes)
    | count rest hand held job concludes => exact housed.left (concluded concludes)
    | shut | dismiss => exact absurd rfl steady
    | clear none => exact none
  refine ⟨left, ?_⟩
  by_cases steady : σ' = .ending
  · subst steady
    cases turn with
    | rest => exact housed.known
    | shut =>
        have same : nanoapps { s with loop := s.loop.shut } = s.nanoapps := by
          rw [nanoapps_open .ready s housed (by decide)]
          rfl
        rw [members, same]
        exact housed.known
    | dismiss place a there =>
        have fewer : (s.loop.apps ++ s.loop.leaving.eraseIdx place).Sublist s.nanoapps :=
          (List.eraseIdx_sublist _ _).append_left _
        exact (add_le_add_right (Multiset.coe_le.mpr (fewer.map Loaded.badge).subperm) s.coming).trans housed.known
    | job j queue waits begins => cases σ <;> cases begins
    | install badge program hand held starts concludes => cases σ <;> cases concludes
    | decline badge program hand held refuses concludes => cases σ <;> cases concludes
    | quit hand held concludes => cases σ <;> cases concludes
    | consume e hand held concludes => cases σ <;> cases concludes
    | count rest hand held job concludes => cases σ <;> cases concludes
  · rw [members, nanoapps, left steady, List.append_nil]
    exact registered.known

theorem housed_grow (σ : Stage) (s s' : Seat) (grow : s.Grow s') (housed : s.Housed σ) : s'.Housed σ := by
  obtain ⟨apps, leaving⟩ := grows_nanoapps s s' (.single grow)
  have same : s'.nanoapps = s.nanoapps := by rw [nanoapps, apps, leaving, nanoapps]
  refine ⟨fun steady => leaving.trans (housed.left steady), ?_⟩
  rw [members, same]
  exact known_grow s s' s.members grow housed.known

structure Called (more : List Upcall) (popped : List Task) (s s' : Seat) : Prop where
  calls : s'.calls = s.calls ++ more
  queue : s.loop.queue.toList = popped ++ s'.loop.queue.toList
  events : more.filterMap Upcall.event? = popped.filterMap Task.event?
  given : ∀ badge program, .start badge program ∈ more → .load badge program ∈ popped
  leads : Leads more s s'

variable {s s' : Seat}

theorem called_none (calls : s'.calls = s.calls) (queue : s'.loop.queue = s.loop.queue) (leads : Leads [] s s') :
    Called [] [] s s' :=
  ⟨by rw [calls, List.append_nil], by rw [queue, List.nil_append], rfl, nofun, leads⟩

theorem called_silent (x : Upcall) (event : x.event? = none) (start : x.isStart = false) (calls : s'.calls = s.calls ++ [x])
    (queue : s'.loop.queue = s.loop.queue) (leads : Leads [x] s s') : Called [x] [] s s' := by
  refine ⟨calls, by rw [queue, List.nil_append], by simp [event], fun badge program started => ?_, leads⟩
  rw [← List.mem_singleton.mp started] at start
  cases start

theorem called_aside (t : Task) (waits : s.loop.queue.toList = t :: s'.loop.queue.toList) (event : t.event? = none)
    (calls : s'.calls = s.calls) (leads : Leads [] s s') : Called [] [t] s s' :=
  ⟨by rw [calls, List.append_nil], waits, by simp [event], nofun, leads⟩

theorem called_event (x : Upcall) (e : Event) (waits : s.loop.queue.toList = .event e :: s'.loop.queue.toList)
    (event : x.event? = some e) (calls : s'.calls = s.calls ++ [x]) (leads : Leads [x] s s') : Called [x] [.event e] s s' := by
  refine ⟨calls, waits, by simp [event, Task.event?], fun badge program started => ?_, leads⟩
  rw [← List.mem_singleton.mp started] at event
  cases event

theorem turn_called (σ σ' : Stage) (turn : Turn σ σ' s s') (fits : s.Fits σ) (numbered : s.Numbered)
    (few : s.requested.length ≤ instanceLimit) (registered : s.Registered σ) (housed : s.Housed σ) :
    ∃ more popped, Called more popped s s' := by
  have apart := Multiset.Nodup.of_map _ (around_apart σ s numbered few housed)
  have open' := nanoapps_open σ s housed
  have unstarted := fun none => idle_install s (fits_idle σ s fits none)
  cases turn with
  | rest => exact ⟨[], [], called_none rfl rfl (leads_still s s fun _ _ => id)⟩
  | pass e badge program queue waits loaded =>
      obtain ⟨listed, inst⟩ := RunLoop.loaded_some _ _ _ loaded
      have there : ⟨badge, program⟩ ∈ s.nanoapps := List.mem_append_left _ listed
      refine ⟨_, _, called_event (.handle badge program e) e waits rfl rfl ?_⟩
      refine leads_pass e badge program queue numbered few housed waits there inst rfl rfl rfl ?_
      rw [open' (by decide)]
      simp [nanoapps, RunLoop.setProgram, RunLoop.freeEvent, housed.left]
  | miss e queue waits absent =>
      have missing : ∀ a ∈ s.nanoapps, a.badge.inst ≠ e.target := by
        rw [open' (by decide)]
        exact fun a listed => by simpa using List.find?_eq_none.mp absent a listed
      refine ⟨_, _, called_event (.drop e) e waits rfl rfl ?_⟩
      exact leads_drop e missing (unstarted rfl) (leads_aside (.event e) queue .nothing waits rfl rfl rfl rfl rfl)
  | job j queue waits begins =>
      refine ⟨[], _, called_aside (.job j) waits rfl rfl ?_⟩
      exact leads_aside (.job j) queue j.epilogue waits rfl rfl (by cases j <;> rfl) rfl rfl
  | load badge program queue waits fresh =>
      refine ⟨[.start badge program], [.load badge program], rfl, waits, rfl, fun b p started => ?_, ?_⟩
      · cases List.mem_singleton.mp started
        exact List.mem_cons_self
      · exact leads_load badge program queue apart (fits_idle .ready s fits rfl) waits rfl rfl rfl rfl
  | unload app badge a queue waits known loaded =>
      have distinct := members_apart .ready s numbered few housed
      have ended : s.nanoapps.Perm (a :: (s.loop.evict badge.inst).apps) := by
        rw [open' (by decide)] at distinct ⊢
        exact s.loop.evict_perm badge.inst a distinct loaded
      refine ⟨[.close a.badge a.program], [.unload app], rfl, waits, rfl, by simp, ?_⟩
      refine leads_close a numbered few housed (unstarted rfl) ?_ rfl (fun other program held => ?_) fun other comes => ?_
      · refine ended.trans (List.Perm.of_eq ?_)
        simp [nanoapps, RunLoop.evict, RunLoop.strike, housed.left]
      · exact unstarted rfl other program ((Multiset.mem_cons.mp held).resolve_left (by simp))
      · exact (coming_popped (.unload app) queue .nothing waits rfl rfl other comes).resolve_left (by simp [Epilogue.badge?])
  | strike app badge queue waits known absent =>
      exact ⟨[], _, called_aside (.unload app) waits rfl rfl (leads_aside _ queue .nothing waits rfl rfl rfl rfl rfl)⟩
  | skip t queue waits free =>
      have event : t.event? = none := by cases t <;> first | rfl | exact free.elim
      exact ⟨[], _, called_aside t waits event rfl (leads_aside t queue .nothing waits rfl rfl rfl rfl rfl)⟩
  | install badge program hand held starts concludes =>
      obtain rfl := fits_alone σ σ' s _ hand fits concludes held
      have placed := RunLoop.placeApp_perm ⟨badge, program.afterStart⟩ s.loop.apps
        (entering_apart σ s badge program numbered few registered (held ▸ Multiset.mem_cons_self _ _))
      refine ⟨_, [], called_silent (.answer badge true) rfl rfl rfl rfl ?_⟩
      exact leads_install badge program apart held starts (placed.append_right _) rfl rfl rfl
  | decline badge program hand held refuses concludes =>
      obtain rfl := fits_alone σ σ' s _ hand fits concludes held
      refine ⟨_, [], called_silent (.answer badge false) rfl rfl rfl rfl ?_⟩
      exact leads_decline badge program housed apart held refuses rfl rfl rfl rfl
  | quit hand held concludes =>
      exact ⟨[], [], called_none rfl rfl (leads_conclude .nothing hand held rfl rfl rfl rfl rfl)⟩
  | consume e hand held concludes =>
      exact ⟨[], [], called_none rfl rfl (leads_conclude (.consume e) hand held rfl rfl rfl rfl rfl)⟩
  | count rest hand held job concludes =>
      have silent : rest.badge? = none := by
        cases rest with
        | countJob | giveBack => rfl
        | nothing | install | consume => cases job
      exact ⟨[], [], called_none rfl rfl (leads_conclude rest hand held rfl silent rfl rfl rfl)⟩
  | shut =>
      refine ⟨[], [], called_none rfl rfl (leads_modify RunLoop.shut rfl ?_)⟩
      rw [open' (by decide)]
      rfl
  | dismiss place a there =>
      obtain ⟨bound, here⟩ := List.getElem?_eq_some_iff.mp there
      have parted := List.getElem_cons_eraseIdx_perm bound
      rw [here] at parted
      refine ⟨_, [], called_silent (.close a.badge a.program) rfl rfl rfl rfl ?_⟩
      refine leads_close a numbered few housed (unstarted rfl) ?_ rfl (unstarted rfl) fun _ => id
      exact (parted.symm.append_left s.loop.apps).trans List.perm_middle
  | clear none => exact ⟨[], [], called_none rfl rfl (leads_modify (fun l => { l with roster := [] }) rfl rfl)⟩
  | drain e queue waits =>
      have missing : ∀ a ∈ s.nanoapps, a.badge.inst ≠ e.target := by
        rw [open' (by decide), fits.apps rfl]
        exact fun a listed => absurd listed List.not_mem_nil
      refine ⟨_, _, called_event (.drop e) e waits rfl rfl ?_⟩
      exact leads_drop e missing (unstarted rfl) (leads_discard _ queue waits rfl rfl rfl rfl)
  | drop t queue waits job event =>
      exact ⟨[], _, called_aside t waits event rfl (leads_discard _ queue waits rfl rfl rfl rfl)⟩
  | leave done =>
      exact ⟨[], [], called_none rfl rfl (leads_modify (fun l => { l with attached := false }) rfl rfl)⟩

structure Recorded (s : Seat) : Prop where
  order : ∃ turned, s.log.accepted = turned ++ s.loop.queue.toList ∧
    turned.filterMap Task.event? = s.calls.filterMap Upcall.event?
  given : ∀ badge program, .start badge program ∈ s.calls → .load badge program ∈ s.log.accepted
  asked : ((s.log.accepted.filterMap Task.badge? : List Badge) : Multiset Badge) ≤ s.requested
  lives : s.Lives s.calls

theorem recorded_turn (σ σ' : Stage) (more : List Upcall) (popped : List Task) (turn : Turn σ σ' s s')
    (called : Called more popped s s') (recorded : s.Recorded) : s'.Recorded := by
  obtain ⟨⟨turned, accepted, turns⟩, known, asked, lives⟩ := recorded
  have same : s'.log.accepted = s.log.accepted := by cases turn <;> rfl
  constructor
  · refine ⟨turned ++ popped, ?_, ?_⟩
    · rw [same, accepted, called.queue, List.append_assoc]
    · rw [called.calls, List.filterMap_append, List.filterMap_append, turns, called.events]
  · intro badge program started
    rw [called.calls] at started
    rw [same]
    rcases List.mem_append.mp started with old | new
    · exact known badge program old
    · rw [accepted, called.queue]
      exact List.mem_append_right _ (List.mem_append_left _ (called.given badge program new))
  · rw [same, turn_requested σ σ' s s' turn]
    exact asked
  · rw [called.calls]
    exact lives_leads s.calls more s s' called.leads lives

theorem recorded_grow (grow : s.Grow s') (numbered : s'.Numbered) (few : s'.requested.length ≤ instanceLimit)
    (recorded : s.Recorded) : s'.Recorded := by
  obtain ⟨⟨turned, accepted, turns⟩, known, asked, lives⟩ := recorded
  obtain ⟨-, more, queue, log⟩ := grows_queue s s' (.single grow)
  have calls : s'.calls = s.calls := by cases grow <;> rfl
  have lives' := lives_leads s.calls [] s s' (leads_grow s s' grow numbered few) lives
  rw [List.append_nil, ← calls] at lives'
  refine ⟨⟨turned, ?_, ?_⟩, fun badge program started => ?_, ?_, lives'⟩
  · rw [log, queue, accepted, List.append_assoc]
  · rw [calls]
    exact turns
  · rw [calls] at started
    rw [log]
    exact List.mem_append_left _ (known badge program started)
  · cases grow with
    | steer owner stopRequested => exact asked
    | halt attached =>
        rw [Log.accept, List.filterMap_append, List.filterMap_cons_none rfl, List.filterMap_nil, List.append_nil]
        exact asked
    | accept t l plain taken =>
        have silent : t.badge? = none := by cases t <;> first | rfl | exact absurd trivial plain
        rw [Log.accept, List.filterMap_append, List.filterMap_cons_none silent, List.filterMap_nil, List.append_nil]
        exact asked
    | request badge issued => exact asked.trans (Multiset.le_cons_self _ badge)
    | load badge program l issued taken =>
        rw [Log.accept, List.filterMap_append, ← Multiset.coe_add, add_comm]
        exact Multiset.cons_le_cons badge asked

theorem recorded_known (recorded : s.Recorded) (badge : Badge) (program : Program Action)
    (started : .start badge program ∈ s.calls) : badge ∈ s.requested := by
  have accepted : badge ∈ s.log.accepted.filterMap Task.badge? :=
    List.mem_filterMap.mpr ⟨_, recorded.given badge program started, rfl⟩
  exact Multiset.mem_coe.mp (Multiset.mem_of_le recorded.asked (Multiset.mem_coe.mpr accepted))

theorem recorded_split (recorded : s.Recorded) (early late : List Upcall) (call : Upcall) (badge : Badge)
    (split : s.calls = early ++ call :: late) (concerns : call.concerns badge = true) :
    ∃ here next, Lifecycle badge here (early.filter (·.concerns badge)) ∧ Phase.Step badge here call next ∧
      (here ≠ .unstarted → badge ∈ s.requested) := by
  obtain ⟨phase, life, -⟩ := recorded.lives badge
  rw [split, List.filter_append, List.filter_cons_of_pos concerns] at life
  obtain ⟨here, next, before, step⟩ := life.split call _ _
  refine ⟨here, next, before, step, fun begun => ?_⟩
  obtain ⟨program, started⟩ := before.started begun
  refine recorded_known recorded badge program ?_
  rw [split]
  exact List.mem_append_left _ (List.mem_of_mem_filter started)

theorem recorded_handle (recorded : s.Recorded) (early late : List Upcall) (badge : Badge) (program : Program Action)
    (e : Event) (split : s.calls = early ++ .handle badge program e :: late) :
    badge ∈ s.requested ∧ e.target = badge.inst ∧ (early.filter (·.concerns badge)).countP Upcall.isStarted = 1 ∧
      (early.filter (·.concerns badge)).countP Upcall.isClose = 0 := by
  obtain ⟨here, next, life, step, known⟩ := recorded_split recorded early late _ badge split (by simp [Upcall.concerns])
  cases step with
  | handle program e meant =>
      obtain ⟨-, rest⟩ := Prod.mk.inj life.tally
      obtain ⟨started, closes⟩ := Prod.mk.inj rest
      exact ⟨known (by simp), meant, started, closes⟩

theorem recorded_closed (recorded : s.Recorded) (apart : (s.requested.map (·.inst)).Nodup) (early late : List Upcall)
    (badge : Badge) (program : Program Action) (split : s.calls = early ++ .close badge program :: late) (call : Upcall)
    (later : call ∈ late) (e : Event) (event : call.event? = some e) (meant : e.target = badge.inst) : call = .drop e := by
  cases call with
  | drop other =>
      cases event
      rfl
  | handle other own e' =>
      cases event
      obtain ⟨between, rest, rfl⟩ := List.append_of_mem later
      have whole : s.calls = (early ++ .close badge program :: between) ++ .handle other own e :: rest := by
        rw [split, List.append_assoc, List.cons_append]
      obtain ⟨known, inst, -, open'⟩ := recorded_handle recorded _ rest other own e whole
      obtain ⟨here, next, -, step, known'⟩ :=
        recorded_split recorded early _ _ badge split (by simp [Upcall.concerns])
      have begun : here ≠ .unstarted := by
        rintro rfl
        cases step
      have same : other = badge := List.inj_on_of_nodup_map apart known (known' begun) (inst.symm.trans meant)
      subst same
      rw [List.filter_append, List.filter_cons_of_pos (by simp [Upcall.concerns]), List.countP_append] at open'
      simp [Upcall.isClose] at open'
  | start | answer | close => cases event

theorem fresh_housed (settings : LoopSettings) : (fresh settings).Housed .ready := ⟨fun _ => rfl, le_rfl⟩

theorem fresh_recorded (settings : LoopSettings) : (fresh settings).Recorded where
  order := ⟨[], rfl, rfl⟩
  given := nofun
  asked := le_rfl
  lives := fun _ => ⟨.unstarted, .nil, nofun, nofun⟩

-- Until the ids are spent, the loop has all its nanoapps on record.
def Kept (σ : Stage) (s : Seat) : Prop :=
  s.Fits σ ∧ s.Numbered ∧ (s.requested.length ≤ instanceLimit → s.Registered σ ∧ s.Housed σ ∧ s.Recorded)

theorem kept_turn (σ σ' : Stage) (s s' : Seat) (turn : Turn σ σ' s s') (kept : s.Kept σ) : s'.Kept σ' := by
  obtain ⟨fits, numbered, books⟩ := kept
  refine ⟨fits_turn σ σ' s s' turn fits, numbered_turn σ σ' s s' turn numbered, fun few => ?_⟩
  rw [turn_requested σ σ' s s' turn] at few
  obtain ⟨registered, housed, recorded⟩ := books few
  have registered' := registered_turn σ σ' s s' turn fits numbered few registered
  obtain ⟨more, popped, called⟩ := turn_called σ σ' turn fits numbered few registered housed
  exact ⟨registered', housed_turn σ σ' s s' turn registered' housed, recorded_turn σ σ' more popped turn called recorded⟩

theorem kept_grow (σ : Stage) (s s' : Seat) (grow : s.Grow s') (kept : s.Kept σ) : s'.Kept σ := by
  obtain ⟨fits, numbered, books⟩ := kept
  have numbered' := numbered_grow s s' grow numbered
  refine ⟨fits_grow σ s s' grow fits, numbered', fun few => ?_⟩
  obtain ⟨registered, housed, recorded⟩ := books ((grow_requested s s' grow).trans few)
  exact ⟨registered_grow σ s s' grow registered, housed_grow σ s s' grow housed, recorded_grow grow numbered' few recorded⟩

end Seat

namespace Scene

variable (i : Nat)

-- The request answers the id under which it queues the nanoapp, or is refused and queues none.
def Grants (app : AppId) (permissions : Permissions) (program : Program Action) (c : Scene) : Prop :=
  ∃ badge : Badge, badge.app = app ∧ badge.permissions = permissions ∧
    requests i (c.move (.act (.load i app permissions program))).stack.hub.history =
      badge :: requests i c.stack.hub.history ∧
    (((c.stack.act (.load i app permissions program)).1 = .loaded (.ok badge.inst) ∧
        c.accepts i (.act (.load i app permissions program)) = [.load badge program]) ∨
      ((∃ failure, (c.stack.act (.load i app permissions program)).1 = .loaded (.error failure)) ∧
        c.accepts i (.act (.load i app permissions program)) = []))

theorem accepts_queued (m : Move) (c : Scene) (l : RunLoop) (more : List Task) (unpopped : c.pops i m = [])
    (place : (c.move m).stack.loop? i = some l) (pushed : l.queue.toList = c.queued i ++ more) : c.accepts i m = more := by
  have queued : (c.move m).queued i = l.queue.toList := by
    rw [Scene.queued, place]
    rfl
  rw [accepts, queued, pushed, unpopped]
  exact List.drop_left

theorem load_grants (app : AppId) (permissions : Permissions) (program : Program Action) (c : Scene) (l : RunLoop)
    (place : c.stack.loop? i = some l) : c.Grants i app permissions program := by
  have here : c.stack.hub.loops[i]? = some l := place
  have spot : (c.stack.hub.issued i app permissions l).loops[i]? = some l.issue.2 :=
    List.getElem?_set_self (List.getElem?_eq_some_iff.mp here).1
  have told : requests i (c.stack.hub.issued i app permissions l).history =
      c.stack.hub.badgeFor app permissions l :: requests i c.stack.hub.history := requests_cons i _ _
  have acted : c.stack.act (.load i app permissions program) =
      (.loaded (c.stack.hub.requestLoad i app permissions program).1,
        { c.stack with hub := (c.stack.hub.requestLoad i app permissions program).2 }) := by
    simp only [Stack.act, Stack.ifLoop, here]
  have queued : c.queued i = l.queue.toList := by
    rw [Scene.queued, place]
    rfl
  have moved : (c.move (.act (.load i app permissions program))).stack.hub =
      (c.stack.hub.requestLoad i app permissions program).2 := by
    simp only [move, onStack, acted]
  have shown : ∀ next, (c.stack.hub.requestLoad i app permissions program).2.loops[i]? = some next →
      (c.move (.act (.load i app permissions program))).stack.loop? i = some next := by
    intro next there
    rw [← moved] at there
    exact there
  refine ⟨c.stack.hub.badgeFor app permissions l, rfl, rfl, ?_⟩
  rw [moved, acted]
  rw [Hub.requestLoad_queued c.stack.hub i app permissions program l here] at shown ⊢
  cases taken : (c.stack.hub.issued i app permissions l).enqueue i (.load (c.stack.hub.badgeFor app permissions l) program) with
  | ok next =>
      obtain ⟨l', after, place', pushed, rfl⟩ := Hub.enqueue_cases _ next i _ taken
      cases spot.symm.trans place'
      rw [taken] at shown
      refine ⟨told, .inl ⟨rfl, accepts_queued i _ c after _ rfl (shown after ?_) ?_⟩⟩
      · exact List.getElem?_set_self (List.getElem?_eq_some_iff.mp spot).1
      · rw [queued, RunLoop.enqueue_cases _ _ after pushed]
        exact Fifo.toList_push _ _
  | error failure =>
      rw [taken] at shown
      refine ⟨told, .inr ⟨⟨failure, rfl⟩, accepts_queued i _ c l.issue.2 _ rfl (shown _ spot) ?_⟩⟩
      rw [queued, List.append_nil]
      rfl

structure Serves (moves : List Move) (σ : Stage) (c : Scene) : Prop where
  -- Each request has an id of its own, which it answers if it is not refused.
  apart : ((requests i (c.run moves).stack.hub.history).map (·.inst)).Nodup
  grants : ∀ past app permissions program later, moves = past ++ .act (.load i app permissions program) :: later →
    (c.run past).Grants i app permissions program
  -- What is started is what was given with the request, and what runs is the nanoapp's own code.
  asked : (((c.log i moves).accepted.filterMap Task.badge? : List Badge) : Multiset Badge) ≤
    requests i (c.run moves).stack.hub.history
  given : ∀ badge program, .start badge program ∈ (c.run moves).stack.hub.callsOn i →
    .load badge program ∈ (c.log i moves).accepted
  runs : ∀ past t next later, moves = past ++ .take i :: later → (c.run past).stack.next? i = some (t, next) →
    t.isJob = false → ∃ made, (next.startTask i t).2.2.hub.callsOn i = (c.run past).stack.hub.callsOn i ++ made ∧
      (next.startTask i t).1 = made.flatMap Upcall.script ∧
      next.runTask i t =
        ((next.startTask i t).2.2.perform (made.flatMap Upcall.script)).finishTask i (next.startTask i t).2.1
  ends : ∀ past place later, moves = past ++ .quit i place :: later →
    ∃ made, ((c.run past).stack.quit i place).2.hub.callsOn i = (c.run past).stack.hub.callsOn i ++ made ∧
      ((c.run past).stack.quit i place).1 = made.flatMap Upcall.script ∧
      (c.run past).stack.endApp i place = ((c.run past).stack.quit i place).2.perform (made.flatMap Upcall.script)
  -- A loop that has come past its last nanoapp serves none any more.
  lives : ∀ badge, ∃ phase,
    Lifecycle badge phase (((c.run moves).stack.hub.callsOn i).filter (·.concerns badge)) ∧
      (σ.isOpen = false → σ ≠ .ending → phase.isIdle = true)
  once : ∀ badge, (((c.run moves).stack.hub.callsOn i).filter (·.concerns badge)).countP Upcall.isStart ≤ 1 ∧
    (((c.run moves).stack.hub.callsOn i).filter (·.concerns badge)).countP Upcall.isStarted ≤ 1 ∧
    (((c.run moves).stack.hub.callsOn i).filter (·.concerns badge)).countP Upcall.isClose ≤
      (((c.run moves).stack.hub.callsOn i).filter (·.concerns badge)).countP Upcall.isStarted
  settled : σ.isOpen = false → σ ≠ .ending → ∀ badge,
    (((c.run moves).stack.hub.callsOn i).filter (·.concerns badge)).countP Upcall.isClose =
      (((c.run moves).stack.hub.callsOn i).filter (·.concerns badge)).countP Upcall.isStarted
  -- Events come up in the order in which they were accepted, each to be handled or to be dropped.
  order : ((c.run moves).stack.hub.callsOn i).filterMap Upcall.event? ++ ((c.run moves).queued i).filterMap Task.event? =
    (c.log i moves).accepted.filterMap Task.event?
  handles : ∀ early badge program e late, (c.run moves).stack.hub.callsOn i = early ++ .handle badge program e :: late →
    badge ∈ requests i (c.run moves).stack.hub.history ∧ e.target = badge.inst ∧
      (early.filter (·.concerns badge)).countP Upcall.isStarted = 1 ∧
      (early.filter (·.concerns badge)).countP Upcall.isClose = 0
  strays : ∀ early badge program late, (c.run moves).stack.hub.callsOn i = early ++ .close badge program :: late →
    ∀ call ∈ late, ∀ e, call.event? = some e → e.target = badge.inst → call = .drop e

theorem run_served (c : Scene) (moves : List Move) (σ : Stage) (starts : c.Starts) (l : RunLoop)
    (place : c.stack.loop? i = some l) (after : Stage.ready.after i moves c = some σ)
    (few : (requests i (c.run moves).stack.hub.history).length ≤ instanceLimit) : c.Serves i moves σ := by
  obtain ⟨settings, sits⟩ := starts_seat i c l starts place
  obtain ⟨s, sits', log, fits, numbered, books⟩ := run_seat i (fun σ s => s.Kept σ) (fun s kept => kept.1.stopped rfl)
    Seat.kept_turn Seat.kept_grow moves c .ready σ _ sits
    ⟨Seat.fresh_fits settings, Seat.fresh_numbered settings,
      fun _ => ⟨Seat.fresh_registered settings, Seat.fresh_housed settings, Seat.fresh_recorded settings⟩⟩ after
  have requested := sits'.shows.requested
  have calls := sits'.shows.calls
  rw [requested] at few
  obtain ⟨-, housed, recorded⟩ := books few
  have logged : s.log = c.log i moves := log
  have lives : ∀ badge, ∃ phase,
      Lifecycle badge phase (((c.run moves).stack.hub.callsOn i).filter (·.concerns badge)) ∧
        (σ.isOpen = false → σ ≠ .ending → phase.isIdle = true) := by
    intro badge
    obtain ⟨phase, life, stands⟩ := recorded.lives badge
    rw [← calls] at life
    exact ⟨phase, life, Seat.stands_closed σ s badge phase fits housed stands⟩
  constructor
  case apart =>
    rw [requested]
    exact numbered.apart few
  case grants =>
    rintro past app permissions program later rfl
    rw [Stage.after_append] at after
    obtain ⟨σ₁, reached, -⟩ := Option.bind_eq_some_iff.mp after
    obtain ⟨s₁, sits₁, -⟩ := run_registered i c past σ₁ l starts place reached
    exact load_grants i app permissions program _ s₁.loop sits₁.shows.place
  case asked =>
    rw [requested, ← logged]
    exact recorded.asked
  case given =>
    rw [← logged, calls]
    exact recorded.given
  case runs =>
    intro past t next later _ taken plain
    obtain ⟨-, queue, -, -, rfl⟩ := Stack.next_cases i t _ next taken
    obtain ⟨made, called, script⟩ := Stack.calls_task i t _ plain
    exact ⟨made, called, script, by rw [Stack.runTask, ← script]⟩
  case ends =>
    intro past place later _
    obtain ⟨made, called, script⟩ := Stack.calls_quit i place (c.run past).stack
    exact ⟨made, called, script, by rw [Stack.endApp, ← script]⟩
  case lives => exact lives
  case once =>
    intro badge
    obtain ⟨phase, life, -⟩ := lives badge
    exact life.once
  case settled =>
    intro closed past badge
    obtain ⟨phase, life, idle⟩ := lives badge
    exact life.settled (idle closed past)
  case order =>
    obtain ⟨turned, accepted, turns⟩ := recorded.order
    rw [← logged, accepted, List.filterMap_append, turns, sits_queued i _ s sits', calls]
  case handles =>
    intro early badge program e late split
    rw [requested]
    exact Seat.recorded_handle recorded early late badge program e (calls.symm.trans split)
  case strays =>
    intro early badge program late split call later e event meant
    exact Seat.recorded_closed recorded (numbered.apart few) early late badge program (calls.symm.trans split) call later e
      event meant

/-- In every run of a loop that gives out each instance id at most once, whatever is loaded, unloaded, posted or deferred
and in whatever order: a nanoapp is started at most once, it handles the events for the id that its own request answered,
in the order in which they were accepted, after a start that came out well and before its end, and it is ended at most
once. A loop that stopped has ended each nanoapp that it started. An event whose nanoapp was ended before is dropped: no
nanoapp that is loaded later gets it, not even one of the same app. So it is in every session of the program itself, and
once it has run a loop to its end, each nanoapp that started well has been ended there. -/
theorem nanoapps_served (c : Scene) (starts : c.Starts) (here : (c.stack.loop? i).isSome) :
    (∀ moves σ, Stage.ready.after i moves c = some σ →
      (requests i (c.run moves).stack.hub.history).length ≤ instanceLimit → c.Serves i moves σ) ∧
    ∀ steps, (∀ k, .dropLoop k ∉ steps) →
      ((requests i (c.stack.session steps).hub.history).length ≤ instanceLimit →
        ∃ moves σ, Stage.ready.after i moves c = some σ ∧ c.run moves = ⟨c.stack.session steps, []⟩ ∧ c.Serves i moves σ) ∧
      ∀ spawn l, (c.stack.session steps).loop? i = some l → l.attached = true →
        (requests i (c.stack.session (steps ++ [.run i spawn])).hub.history).length ≤ instanceLimit →
          ∃ moves, Stage.ready.after i moves c = some .gone ∧
            c.run moves = ⟨c.stack.session (steps ++ [.run i spawn]), []⟩ ∧ c.Serves i moves .gone := by
  obtain ⟨l, place⟩ := Option.isSome_iff_exists.mp here
  refine ⟨fun moves σ after few => run_served i c moves σ starts l place after few, fun steps kept => ⟨fun few => ?_, ?_⟩⟩
  · obtain ⟨-, moves, σ, -, after, reached⟩ := session_driven i c steps l starts place kept
    refine ⟨moves, σ, after, reached, run_served i c moves σ starts l place after ?_⟩
    rw [reached]
    exact few
  · intro spawn l' held attached few
    obtain ⟨moves, after, reached⟩ := session_run i c steps spawn l l' starts place kept held attached
    refine ⟨moves, after, reached, run_served i c moves .gone starts l place after ?_⟩
    rw [reached]
    exact few

def reloading : List Move :=
  [.act (.load 0 1 .none .plain), .take 0, .finish 0, .act (.post 0 ⟨7, 0, 1, .empty, none⟩), .act (.unload 0 1),
    .act (.load 0 1 .none .plain), .act (.post 0 ⟨8, 0, 1, .empty, none⟩), .act (.post 0 ⟨9, 0, 2, .empty, none⟩),
    .act (.load 0 2 .none .inert), .take 0, .finish 0, .take 0, .finish 0, .take 0, .finish 0, .take 0, .finish 0,
    .take 0, .finish 0, .take 0, .finish 0, .act (.stop 0 true), .take 0, .finish 0, .shut 0, .quit 0 0, .clearRoster 0,
    .detach 0]

def reloaded : List Step :=
  [.act (.load 0 1 .none .plain), .runIdle 0, .act (.post 0 ⟨7, 0, 1, .empty, none⟩), .act (.unload 0 1),
    .act (.load 0 1 .none .plain), .act (.post 0 ⟨8, 0, 1, .empty, none⟩), .act (.post 0 ⟨9, 0, 2, .empty, none⟩),
    .act (.load 0 2 .none .inert), .runIdle 0]

def reloads : List Upcall :=
  let first : Badge := ⟨1, 1, .none, 0⟩
  let second : Badge := ⟨1, 2, .none, 1⟩
  let third : Badge := ⟨2, 3, .none, 2⟩
  [.start first .plain, .answer first true, .handle first .plain ⟨7, 0, 1, .empty, none⟩, .close first .plain,
    .start second .plain, .answer second true, .drop ⟨8, 0, 1, .empty, none⟩,
    .handle second .plain ⟨9, 0, 2, .empty, none⟩, .start third .inert, .answer third false, .close second .plain]

theorem reloading_served :
    Stage.ready.after 0 reloading small = some .gone ∧
      (requests 0 (small.run reloading).stack.hub.history).length ≤ instanceLimit ∧
      (small.run reloading).stack.hub.callsOn 0 = reloads ∧ small.Serves 0 reloading .gone ∧
      (small.stack.session (reloaded ++ [.run 0 false])).hub.callsOn 0 = reloads ∧
      ∃ moves, small.run moves = ⟨small.stack.session (reloaded ++ [.run 0 false]), []⟩ ∧ small.Serves 0 moves .gone := by
  have gone : Stage.ready.after 0 reloading small = some .gone := by decide
  have few : (requests 0 (small.run reloading).stack.hub.history).length ≤ instanceLimit := by decide
  have few' : (requests 0 (small.stack.session (reloaded ++ [.run 0 false])).hub.history).length ≤ instanceLimit := by
    decide +kernel
  have kept : ∀ k, .dropLoop k ∉ reloaded := by simp [reloaded]
  have attached : ((small.stack.session reloaded).loop? 0).map (·.attached) = some true := by decide +kernel
  obtain ⟨l, held, going⟩ := Option.map_eq_some_iff.mp attached
  obtain ⟨runs, sessions⟩ := nanoapps_served 0 small small_starts rfl
  obtain ⟨-, closes⟩ := sessions reloaded kept
  obtain ⟨moves, -, reached, served⟩ := closes false l held going few'
  exact ⟨gone, few, by cbv, runs reloading .gone gone few, by cbv, moves, reached, served⟩

end Scene

end HubRelay
