import HubRelay.Proofs.Loop.Roster
import HubRelay.Proofs.Loop.Weights
import HubRelay.Proofs.Relay.Sessions

/-! The drives of a loop, as they run, are runs of moves: each task is taken up and finished, and a loop that is run
to its end has come to the end of its stages. -/

set_option autoImplicit false

namespace HubRelay

theorem RunLoop.placeApp_ordered (a : Loaded) (apps : List Loaded)
    (ordered : apps.Pairwise fun a b => a.badge.inst < b.badge.inst) :
    (placeApp a apps).Pairwise fun a b => a.badge.inst < b.badge.inst := by
  induction apps with
  | nil => exact List.pairwise_singleton _ a
  | cons b rest ih =>
      obtain ⟨first, later⟩ := List.pairwise_cons.mp ordered
      simp only [placeApp]
      split
      · next less =>
          refine List.pairwise_cons.mpr ⟨fun c member => ?_, ordered⟩
          rcases List.mem_cons.mp member with rfl | member
          · exact less
          · exact UInt16.lt_trans less (first c member)
      · next notLess =>
          split
          · next same =>
              refine List.pairwise_cons.mpr ⟨fun c member => ?_, later⟩
              rw [beq_iff_eq.mp same]
              exact first c member
          · next apart =>
              refine List.pairwise_cons.mpr ⟨fun c member => ?_, ih later⟩
              rcases mem_placeApp a c rest member with rfl | member
              · exact UInt16.lt_of_le_of_ne (UInt16.not_lt.mp notLess) fun same => apart (beq_iff_eq.mpr same.symm)
              · exact first c member

def Seat.Ordered (s : Seat) : Prop := s.loop.apps.Pairwise fun a b => a.badge.inst < b.badge.inst

namespace Seat

theorem ordered_same (s s' : Seat) (ordered : s.Ordered) (same : s'.residents = s.residents) : s'.Ordered := by
  have listed : ∀ s : Seat, s.Ordered ↔ s.residents.Pairwise fun a b => a.inst < b.inst := fun s => by
    rw [Ordered, residents, List.pairwise_map]
  rw [listed, same, ← listed]
  exact ordered

theorem ordered_turn (σ σ' : Stage) (s s' : Seat) (turn : Turn σ σ' s s') (ordered : s.Ordered) : s'.Ordered := by
  cases turn with
  | pass e badge program queue waits loaded =>
      exact ordered_same s _ ordered
        (residents_setProgram badge.inst program.nextScript.2 ({ s.loop with queue := queue } : RunLoop).freeEvent)
  | unload app badge a queue waits known loaded => exact ordered.filter _
  | install badge program hand held starts concludes => exact RunLoop.placeApp_ordered _ _ ordered
  | shut => exact List.Pairwise.nil
  | rest | miss | job | load | strike | skip | decline | quit | consume | count | dismiss | clear | drain | drop | leave =>
      exact ordered_same s _ ordered rfl

theorem ordered_grow (s s' : Seat) (grow : s.Grow s') (ordered : s.Ordered) : s'.Ordered :=
  ordered_same s s' ordered (congrArg (List.map Loaded.badge) (grows_nanoapps s s' (.single grow)).1)

end Seat

namespace Stack

def Rests (i : Nat) (σ : Stage) (s : Stack) : Prop := ∃ seat : Seat, seat.Sits i ⟨s, []⟩ ∧ seat.Fits σ

def Ordered (i : Nat) (s : Stack) : Prop :=
  ∃ l, s.loop? i = some l ∧ l.apps.Pairwise fun a b => a.badge.inst < b.badge.inst

theorem rests_ready (i : Nat) (s : Stack) (l : RunLoop) (place : s.loop? i = some l) : s.Rests i .ready :=
  ⟨⟨l, 0, requests i s.hub.history, passings i s.hub.history, missings i s.hub.history, drainings i s.hub.history,
      s.hub.callsOn i, {}⟩, ⟨⟨place, rfl, rfl, rfl, rfl, rfl⟩, rfl⟩, Seat.fits_open .ready _ rfl rfl⟩

end Stack

namespace Scene

def Leads (i : Nat) (σ σ' : Stage) (c c' : Scene) : Prop := ∃ moves, σ.after i moves c = some σ' ∧ c.run moves = c'

variable (i : Nat) (σ σ' σ'' : Stage)

theorem leads_refl (c : Scene) : c.Leads i σ σ c := ⟨[], rfl, rfl⟩

theorem leads_trans (c c' c'' : Scene) (first : c.Leads i σ σ' c') (later : c'.Leads i σ' σ'' c'') : c.Leads i σ σ'' c'' := by
  obtain ⟨moves, after, rfl⟩ := first
  obtain ⟨more, after', rfl⟩ := later
  refine ⟨moves ++ more, ?_, run_append moves more c⟩
  rw [Stage.after_append, after]
  exact after'

theorem leads_move (m : Move) (c : Scene) (step : σ.step i m c = some σ') : c.Leads i σ σ' (c.move m) := by
  refine ⟨[m], ?_, rfl⟩
  rw [Stage.after, step]
  rfl

end Scene

namespace Stack

def Leads (i : Nat) (σ σ' : Stage) (s s' : Stack) : Prop := ∀ hand, Scene.Leads i σ σ' ⟨s, hand⟩ ⟨s', hand⟩

variable (i : Nat) (σ σ' σ'' : Stage)

theorem leads_refl (s : Stack) : s.Leads i σ σ s := fun hand => Scene.leads_refl i σ ⟨s, hand⟩

theorem leads_trans (s s' s'' : Stack) (first : s.Leads i σ σ' s') (later : s'.Leads i σ' σ'' s'') : s.Leads i σ σ'' s'' :=
  fun hand => Scene.leads_trans i σ σ' σ'' _ _ _ (first hand) (later hand)

theorem leads_move (m : Move) (s s' : Stack) (step : ∀ hand, σ.step i m ⟨s, hand⟩ = some σ')
    (moved : ∀ hand, (Scene.mk s hand).move m = ⟨s', hand⟩) : s.Leads i σ σ' s' :=
  fun hand => moved hand ▸ Scene.leads_move i σ σ' m ⟨s, hand⟩ (step hand)

theorem leads_rests (s s' : Stack) (leads : s.Leads i σ σ' s') (rests : s.Rests i σ) :
    s'.Rests i σ' ∧ (s.Ordered i → s'.Ordered i) := by
  obtain ⟨moves, after, reached⟩ := leads []
  obtain ⟨seat, sits, fits⟩ := rests
  obtain ⟨seat', sits', -, fits', ordered⟩ := Scene.run_seat i (fun σ s => s.Fits σ ∧ (seat.Ordered → s.Ordered))
    (fun s kept => kept.1.stopped rfl)
    (fun σ σ' s s' turn kept => ⟨Seat.fits_turn σ σ' s s' turn kept.1, fun first =>
      Seat.ordered_turn σ σ' s s' turn (kept.2 first)⟩)
    (fun σ s s' grow kept => ⟨Seat.fits_grow σ s s' grow kept.1, fun first => Seat.ordered_grow s s' grow (kept.2 first)⟩)
    moves ⟨s, []⟩ σ σ' seat sits ⟨fits, id⟩ after
  rw [reached] at sits'
  refine ⟨⟨seat', sits', fits'⟩, fun ⟨l, place, first⟩ => ⟨seat'.loop, sits'.shows.place, ordered ?_⟩⟩
  have here : s.loop? i = some seat.loop := sits.shows.place
  rw [here] at place
  cases place
  exact first

theorem leads_act (a : Action) (s : Stack) : s.Leads i σ σ (s.act a).2 :=
  leads_move i σ σ (.act a) s _ (fun _ => rfl) fun _ => rfl

theorem leads_note (n : Note) (s : Stack) : s.Leads i σ σ (s.note n) :=
  leads_move i σ σ (.note n) s _ (fun _ => rfl) fun _ => rfl

theorem leads_perform (script : Script) (s : Stack) : s.Leads i σ σ (s.perform script) := by
  induction script generalizing s with
  | nil => exact leads_refl i σ s
  | cons a rest ih =>
      have acted := leads_act i σ a s
      have noted := leads_note i σ (.answered (s.act a).1) (s.act a).2
      exact leads_trans i σ σ σ _ _ _ acted (leads_trans i σ σ σ _ _ _ noted (ih _))

end Stack

-- The stage of loop `i` while loop `j` is at its own and any other loop at the other.
def Stage.seen (i j : Nat) (own other : Stage) : Stage := if j = i then own else other

@[simp] theorem Stage.seen_self (i : Nat) (own other : Stage) : seen i i own other = own := if_pos rfl

@[simp] theorem Stage.seen_apart (i j : Nat) (own other : Stage) (apart : j ≠ i) : seen i j own other = other := if_neg apart

namespace Stack

variable (i j : Nat) (other : Stage)

theorem leads_task (own mid own' : Stage) (t : Task) (s next : Stack) (taken : s.next? j = some (t, next))
    (begins : own.begin (some t) = some mid) (concludes : mid.conclude = some own') :
    s.Leads i (.seen i j own other) (.seen i j own' other) (next.runTask j t) := by
  intro hand
  let started : Scene := ⟨(next.startTask j t).2.2, (j, (next.startTask j t).2.1) :: hand⟩
  let performed : Scene := ⟨(next.startTask j t).2.2.perform (next.startTask j t).1, started.hand⟩
  have first : Scene.Leads i (.seen i j own other) (.seen i j mid other) ⟨s, hand⟩ started := by
    have moved : (Scene.mk s hand).move (.take j) = started := by simp only [Scene.move, Scene.take, taken, started]
    rw [← moved]
    refine Scene.leads_move i _ _ (.take j) ⟨s, hand⟩ ?_
    by_cases here : j = i
    · subst here
      obtain ⟨⟨rest, queued⟩, -⟩ := Scene.queued_next j ⟨s, hand⟩ t next taken
      simp [Stage.step, queued, begins]
    · simp [Stage.step, here]
  have between : Scene.Leads i (.seen i j mid other) (.seen i j mid other) started performed :=
    leads_perform i _ (next.startTask j t).1 (next.startTask j t).2.2 started.hand
  have last : Scene.Leads i (.seen i j mid other) (.seen i j own' other) performed ⟨next.runTask j t, hand⟩ := by
    refine Scene.leads_move i _ _ (.finish 0) performed ?_
    by_cases here : j = i
    · subst here
      simp [Stage.step, performed, started, concludes]
    · simp [Stage.step, performed, started, here]
  exact Scene.leads_trans i _ _ _ _ _ _ first (Scene.leads_trans i _ _ _ _ _ _ between last)

theorem leads_once (s : Stack) : s.Leads i (.seen i j .ready other) (.seen i j .ready other) (s.runOnce j).2 := by
  unfold runOnce
  split
  · exact leads_refl i _ s
  · next t next taken => exact leads_task i j other .ready .busy .ready t s next taken rfl rfl

theorem leads_many (fuel done : Nat) (s : Stack) :
    s.Leads i (.seen i j .ready other) (.seen i j .ready other) (s.runMany j fuel done).2 := by
  induction fuel generalizing done s with
  | zero => exact leads_refl i _ s
  | succ fuel ih =>
      have once := leads_once i j other s
      rw [runMany]
      split
      · next after worked =>
          rw [worked] at once
          exact once
      · next after worked =>
          rw [worked] at once
          exact leads_trans i _ _ _ _ _ _ once (ih (done + 1) after)

theorem loop_modify (f : RunLoop → RunLoop) (s : Stack) (l : RunLoop) (place : s.loop? j = some l) :
    (s.modifyLoop j f).loop? j = some (f l) := by
  have here : s.hub.loops[j]? = some l := place
  simp [modifyLoop, onHub, loop?, Hub.modifyLoop, here]

theorem leaving_place (s : Stack) (l : RunLoop) (place : s.loop? j = some l) : s.leaving j = l.leaving := by
  rw [leaving, place]
  rfl

theorem leaving_perform (script : Script) (s : Stack) (l : RunLoop) (place : s.loop? j = some l) :
    (s.perform script).leaving j = s.leaving j := by
  obtain ⟨seat, sits, -⟩ := rests_ready j s l place
  obtain ⟨after, shows, grows⟩ := grows_perform j _ script s (Hub.grows_refl j _) seat sits.shows
  rw [leaving_place j s _ sits.shows.place, leaving_place j _ _ shows.place, (Seat.grows_nanoapps seat after grows).2]

theorem leads_endApp (s : Stack) (a : Loaded) (rest : List Loaded) (left : s.leaving j = a :: rest) :
    s.Leads i (.seen i j .ending other) (.seen i j .ending other) (s.endApp j 0) ∧ (s.endApp j 0).leaving j = rest := by
  have first : s.Leads i (.seen i j .ending other) (.seen i j .ending other) (s.quit j 0).2 := by
    refine leads_move i _ _ (.quit j 0) s _ (fun hand => ?_) fun _ => rfl
    by_cases here : j = i
    · subst here
      simp [Stage.step, Stage.quit, left]
    · simp [Stage.step, here]
  refine ⟨leads_trans i _ _ _ _ _ _ first (leads_perform i _ (s.quit j 0).1 (s.quit j 0).2), ?_⟩
  cases place : s.loop? j with
  | none => simp [leaving, place] at left
  | some l =>
      have listed : l.leaving = a :: rest := (leaving_place j s l place).symm.trans left
      obtain ⟨journal, calls, dismissed⟩ := quit_cases j 0 s
      have there : (s.quit j 0).2.loop? j = some (l.dismiss 0) := by
        rw [dismissed]
        exact loop_modify j (·.dismiss 0) s l place
      rw [endApp, leaving_perform j _ _ _ there, leaving_place j _ _ there, RunLoop.dismiss, listed]
      rfl

theorem leads_endApps (left : List Loaded) (s : Stack) (remain : s.leaving j = left) :
    s.Leads i (.seen i j .ending other) (.seen i j .ending other) (s.endApps j left.length) ∧
      (s.endApps j left.length).leaving j = [] := by
  induction left generalizing s with
  | nil => exact ⟨leads_refl i _ s, remain⟩
  | cons a rest ih =>
      obtain ⟨first, fewer⟩ := leads_endApp i j other s a rest remain
      obtain ⟨later, none⟩ := ih (s.endApp j 0) fewer
      exact ⟨leads_trans i _ _ _ _ _ _ first later, none⟩

theorem rests_shut (σ : Stage) (s : Stack) (rests : s.Rests j σ) (closed : σ.isOpen = false) : s.isShut j = true := by
  obtain ⟨seat, sits, fits⟩ := rests
  have place : s.loop? j = some seat.loop := sits.shows.place
  rw [isShut, place, Option.map_some, fits.stopped closed, Option.getD_some]

theorem leads_drop (t : Task) (s next : Stack) (rests : s.Rests j .draining) (taken : s.next? j = some (t, next))
    (plain : ∀ job, t ≠ .job job) :
    s.Leads i (.seen i j .draining other) (.seen i j .draining other) (s.dropTask j) := by
  have shut := rests_shut j .draining s rests rfl
  refine leads_move i _ _ (.drop j) s _ (fun hand => ?_) fun hand => by simp only [Scene.move, shut, if_true]; rfl
  by_cases here : j = i
  · subst here
    obtain ⟨⟨rest, queued⟩, -⟩ := Scene.queued_next j ⟨s, hand⟩ t next taken
    cases t with
    | job job => exact absurd rfl (plain job)
    | event | load | unload | stop => simp [Stage.step, Stage.drop, queued]
  · simp [Stage.step, here]

-- There is fuel enough for all that waits and all that comes of it.
theorem leads_discharge (fuel : Nat) (s : Stack) (rests : s.Rests j .draining) :
    s.Leads i (.seen i j .draining other) (.seen i j .draining other) (s.discharge j fuel) ∧
      (s.weight < fuel → (s.discharge j fuel).next? j = none) := by
  induction fuel generalizing s with
  | zero => exact ⟨leads_refl i _ s, fun enough => absurd enough (Nat.not_lt_zero _)⟩
  | succ fuel ih =>
      -- The loop is watched twice: as the one that drains, and for what it is to loop `i`.
      have again : ∀ s', (∀ i other, s.Leads i (.seen i j .draining other) (.seen i j .draining other) s') →
          s'.weight < s.weight →
          s.Leads i (.seen i j .draining other) (.seen i j .draining other) (s'.discharge j fuel) ∧
            (s.weight < fuel + 1 → (s'.discharge j fuel).next? j = none) := by
        intro s' first lighter
        have own := first j other
        rw [Stage.seen_self] at own
        obtain ⟨later, ends⟩ := ih s' (leads_rests j _ _ s s' own rests).1
        exact ⟨leads_trans i _ _ _ _ _ _ (first i other) later, fun enough => ends (by omega)⟩
      have dropped : ∀ t next, s.next? j = some (t, next) → (∀ job, t ≠ .job job) →
          s.Leads i (.seen i j .draining other) (.seen i j .draining other) ((s.dropTask j).discharge j fuel) ∧
            (s.weight < fuel + 1 → ((s.dropTask j).discharge j fuel).next? j = none) := fun t next taken plain =>
        again _ (fun i other => leads_drop i j other t s next rests taken plain) (weight_drop j t s next taken plain)
      rw [discharge]
      split
      · next empty => exact ⟨leads_refl i _ s, fun _ => empty⟩
      · next job next taken =>
          refine again _ (fun i other => ?_) (weight_task j _ s next taken fun e same => by cases same)
          exact leads_task i j other .draining .sweeping .draining (.job job) s next taken rfl rfl
      · next e next taken =>
          have drop := dropped (.event e) next taken fun job same => by cases same
          rwa [dropTask, taken] at drop
      · next t next notJob notEvent taken =>
          have drop := dropped t next taken notJob
          have same : s.dropTask j = next := by
            cases t with
            | event e => exact (notEvent e rfl).elim
            | job job => exact (notJob job rfl).elim
            | load | unload | stop => simp only [dropTask, taken]
          rwa [same] at drop

theorem leads_detach (s : Stack) (rests : s.Rests j .draining) (empty : s.next? j = none) :
    s.Leads i (.seen i j .draining other) (.seen i j .gone other) (s.detach j) := by
  have shut := rests_shut j .draining s rests rfl
  refine leads_move i _ _ (.detach j) s _ (fun hand => ?_) fun hand => by simp only [Scene.move, shut, if_true]; rfl
  by_cases here : j = i
  · subst here
    simp [Stage.step, Stage.leave, Scene.queued_none j ⟨s, hand⟩ empty]
  · simp [Stage.step, here]

theorem leads_close (s : Stack) (l : RunLoop) (place : s.loop? j = some l) :
    s.Leads i (.seen i j .ready other) (.seen i j .gone other) (s.close j) := by
  have shut : ∀ i other, s.Leads i (.seen i j .ready other) (.seen i j .ending other) (s.shut j) := fun i other =>
    leads_move i _ _ (.shut j) s _ (fun hand => by by_cases here : j = i <;> simp [Stage.step, Stage.seen, Stage.shut, here])
      fun _ => rfl
  generalize reached : (s.shut j).endApps j ((s.shut j).leaving j).length = after
  have ended : ∀ i other, (s.shut j).Leads i (.seen i j .ending other) (.seen i j .ending other) after ∧
      after.leaving j = [] := fun i other => reached ▸ leads_endApps i j other _ (s.shut j) rfl
  have cleared : ∀ i other, after.Leads i (.seen i j .ending other) (.seen i j .draining other) (after.clearRoster j) :=
    fun i other => leads_move i _ _ (.clearRoster j) after _ (fun hand => by
      by_cases here : j = i
      · subst here
        simp [Stage.step, Stage.clear, (ended j other).2]
      · simp [Stage.step, here]) fun _ => rfl
  have first : ∀ i other, s.Leads i (.seen i j .ready other) (.seen i j .draining other) (after.clearRoster j) :=
    fun i other => leads_trans i _ _ _ _ _ _ (shut i other) (leads_trans i _ _ _ _ _ _ (ended i other).1 (cleared i other))
  have own := first j other
  rw [Stage.seen_self, Stage.seen_self] at own
  have draining := (leads_rests j _ _ _ _ own (rests_ready j s l place)).1
  obtain ⟨discharged, ends⟩ := leads_discharge i j other ((after.clearRoster j).weight + 1) _ draining
  have own' := (leads_discharge j j other ((after.clearRoster j).weight + 1) _ draining).1
  rw [Stage.seen_self] at own'
  have left := leads_detach i j other _ (leads_rests j _ _ _ _ own' draining).1 (ends (Nat.lt_succ_self _))
  rw [close, reached]
  exact leads_trans i _ _ _ _ _ _ (first i other) (leads_trans i _ _ _ _ _ _ discharged left)

def Ending.stage : Ending → Stage
  | .closed => .gone
  | .waiting => .ready

theorem leads_runFor (fuel : Nat) (s : Stack) (l : RunLoop) (place : s.loop? j = some l) :
    s.Leads i (.seen i j .ready other) (.seen i j (s.runFor j fuel).1.stage other) (s.runFor j fuel).2 := by
  induction fuel generalizing s l with
  | zero => exact leads_refl i _ s
  | succ fuel ih =>
      have task : ∀ t next, s.next? j = some (t, next) →
          s.Leads i (.seen i j .ready other) (.seen i j .ready other) (next.runTask j t) ∧
            ∃ l, (next.runTask j t).loop? j = some l := by
        intro t next taken
        have own := leads_task j j other .ready .busy .ready t s next taken rfl rfl
        rw [Stage.seen_self] at own
        obtain ⟨⟨seat, sits, -⟩, -⟩ := leads_rests j _ _ _ _ own (rests_ready j s l place)
        exact ⟨leads_task i j other .ready .busy .ready t s next taken rfl rfl, seat.loop, sits.shows.place⟩
      rw [runFor]
      split
      · exact leads_refl i _ s
      · next next taken =>
          obtain ⟨stopped, l', place'⟩ := task .stop next taken
          exact leads_trans i _ _ _ _ _ _ stopped (leads_close i j other next l' place')
      · next t next _ taken =>
          obtain ⟨worked, l', place'⟩ := task t next taken
          simp only
          split
          · exact leads_trans i _ _ _ _ _ _ worked (leads_close i j other _ l' place')
          · exact leads_trans i _ _ _ _ _ _ worked (ih _ l' place')

theorem queue_task (t : Task) (s next : Stack) (seat : Seat) (sits : seat.Sits j ⟨s, []⟩)
    (taken : s.next? j = some (t, next)) :
    ∃ rest more l, seat.loop.queue.toList = t :: rest ∧ (next.runTask j t).loop? j = some l ∧ l.queue.toList = rest ++ more := by
  obtain ⟨queue, waits, popped⟩ := Seat.shows_next j seat s t next sits.shows taken
  obtain ⟨mid, after, -, grows, shows, hand, left, -⟩ := Seat.begun_task j seat next queue popped .ready .busy t waits rfl
  obtain ⟨performed, shows', grows'⟩ := grows_perform j _ (next.startTask j t).1 (next.startTask j t).2.2 (Hub.grows_refl j _)
    after shows
  obtain ⟨held, more, queue', -⟩ := Seat.grows_queue mid performed (grows.trans grows')
  obtain ⟨mid', final, -, grows'', shows'', -, kept, -⟩ := Seat.finish_turn j performed _ .busy .ready (next.startTask j t).2.1
    seat.hand shows' (held.trans hand) rfl
  obtain ⟨-, more', queue'', -⟩ := Seat.grows_queue mid' final grows''
  refine ⟨mid.loop.queue.toList, more ++ more', final.loop, left, shows''.place, ?_⟩
  rw [queue'', kept, queue', List.append_assoc]

theorem ordered_task (t : Task) (s next : Stack) (ordered : s.Ordered j) (taken : s.next? j = some (t, next)) :
    (next.runTask j t).Ordered j ∧ (next.runTask j t).weight < s.weight := by
  obtain ⟨l, place, sorted⟩ := ordered
  have own := leads_task j j .ready .ready .busy .ready t s next taken rfl rfl
  rw [Stage.seen_self] at own
  refine ⟨(leads_rests j _ _ _ _ own (rests_ready j s l place)).2 ⟨l, place, sorted⟩, weight_task j t s next taken ?_⟩
  intro e _ l' place'
  rw [place] at place'
  cases place'
  exact sorted

theorem runFor_closes (fuel : Nat) (s : Stack) (ordered : s.Ordered j) (enough : s.weight < fuel)
    (waits : ∀ l, s.loop? j = some l → .stop ∈ l.queue.toList) : (s.runFor j fuel).1 = .closed := by
  induction fuel generalizing s with
  | zero => exact absurd enough (Nat.not_lt_zero _)
  | succ fuel ih =>
      have ⟨l, place, _⟩ := ordered
      obtain ⟨seat, sits, -⟩ := rests_ready j s l place
      have here : s.loop? j = some seat.loop := sits.shows.place
      have stop := waits seat.loop here
      rw [runFor]
      split
      · next empty =>
          have none : seat.loop.queue.toList = [] := by
            simpa [next?, here, RunLoop.next?, Fifo.pop?_eq_none] using empty
          rw [none] at stop
          cases stop
      · rfl
      · next t next notStop taken =>
          obtain ⟨ordered', lighter⟩ := ordered_task j t s next ordered taken
          obtain ⟨rest, more, l', queue, place', left⟩ := queue_task j t s next seat sits taken
          rw [queue] at stop
          have later : .stop ∈ rest := (List.mem_cons.mp stop).resolve_left fun same => notStop same.symm
          simp only
          split
          · rfl
          · refine ih _ ordered' (by omega) fun l'' there => ?_
            rw [place'] at there
            cases there
            rw [left]
            exact List.mem_append_left more later

theorem leads_occupy (σ : Stage) (s : Stack) : s.Leads i σ σ (s.occupy j) :=
  leads_move i σ σ (.occupy j) s _ (fun _ => rfl) fun _ => rfl

theorem leads_turn (σ : Stage) (thread : Thread) (s : Stack) : s.Leads i σ σ (s.asThread thread) :=
  leads_move i σ σ (.turn thread) s _ (fun _ => rfl) fun _ => rfl

theorem leads_run (spawn : Bool) (s : Stack) (l : RunLoop) (place : s.loop? j = some l) (held : l.attached = true) :
    ∃ e : Ending, (∀ i other, s.Leads i (.seen i j .ready other) (.seen i j e.stage other) (s.step (.run j spawn)).2) ∧
      (s.Ordered j → e = .closed) := by
  have here : s.hub.loops[j]? = some l := place
  let stopped := s.modifyLoop j (·.stop none)
  let ready := if spawn then stopped.asThread stopped.threads else stopped
  have asked : ∀ i σ, s.Leads i σ σ stopped := by
    intro i σ
    have acted := leads_act i σ (.stop j true) s
    rwa [act, ifLoop, here] at acted
  have turned : ∀ i σ, stopped.Leads i σ σ ready := by
    intro i σ
    simp only [ready]
    split
    · exact leads_turn i σ _ stopped
    · exact leads_refl i σ stopped
  have prepared : ready.loop? j = some (l.stop none) := by
    have there := loop_modify j (·.stop none) s l place
    simp only [ready]
    split <;> exact there
  have driven := loop_modify j (·.occupy ready.hub.thread) ready _ prepared
  have ran := fun i other => leads_runFor i j other ((ready.occupy j).weight + 1) (ready.occupy j) _ driven
  have whole : (s.step (.run j spawn)).2 = ((ready.occupy j).run j).2 := by
    simp only [step, ifHeld, place, held, if_true, ready, stopped]
    cases spawn <;> rfl
  have queue : (l.stop none).queue.toList = l.queue.toList ++ [.stop] := by simp [RunLoop.stop, held]
  have apps : (l.stop none).apps = l.apps := by simp [RunLoop.stop, held]
  refine ⟨((ready.occupy j).run j).1, fun i other => ?_, fun ordered => ?_⟩
  · rw [whole]
    exact leads_trans i _ _ _ _ _ _ (asked i _) (leads_trans i _ _ _ _ _ _ (turned i _)
      (leads_trans i _ _ _ _ _ _ (leads_occupy i j _ ready) (ran i other)))
  · obtain ⟨l', place', sorted⟩ := ordered
    rw [place] at place'
    cases place'
    refine runFor_closes j _ (ready.occupy j) ⟨_, driven, ?_⟩ (Nat.lt_succ_self _) fun l' there => ?_
    · rw [RunLoop.occupy, apps]
      exact sorted
    · have same : l' = (l.stop none).occupy ready.hub.thread := Option.some.inj (there.symm.trans driven)
      rw [same, RunLoop.occupy, queue]
      exact List.mem_append_right _ List.mem_cons_self

theorem leads_held (f : RunLoop → Reply × Stack) (s : Stack) (σ : Stage) (between : σ = .ready ∨ σ = .gone) (rests : s.Rests i σ)
    (each : ∀ l, s.loop? j = some l → l.attached = true → ∃ own, (own = .ready ∨ own = .gone) ∧
      ∀ other, s.Leads i (.seen i j .ready other) (.seen i j own other) (f l).2) :
    ∃ σ', (σ' = .ready ∨ σ' = .gone) ∧ s.Leads i σ σ' (s.ifHeld j f).2 := by
  unfold ifHeld
  split
  · exact ⟨σ, between, leads_refl i σ s⟩
  · next l place =>
      split
      · next held =>
          obtain ⟨own, ends, leads⟩ := each l place held
          by_cases here : j = i
          · subst here
            obtain ⟨seat, sits, fits⟩ := rests
            have same : seat.loop = l := Option.some.inj (sits.shows.place.symm.trans place)
            have ready : σ = .ready := between.resolve_right fun gone => by
              have away := (fits.gone gone).1
              rw [same, held] at away
              cases away
            subst ready
            exact ⟨own, ends, by simpa using leads .ready⟩
          · exact ⟨σ, between, by simpa [here] using leads σ⟩
      · exact ⟨σ, between, leads_refl i σ s⟩

theorem leads_step (step : Step) (s : Stack) (σ : Stage) (kept : ∀ k, step ≠ .dropLoop k) (between : σ = .ready ∨ σ = .gone)
    (rests : s.Rests i σ) : ∃ σ', (σ' = .ready ∨ σ' = .gone) ∧ s.Leads i σ σ' (s.step step).2 := by
  cases step with
  | act a => exact ⟨σ, between, leads_act i σ a s⟩
  | runOnce j =>
      refine leads_held i j _ s σ between rests fun l place held => ⟨.ready, .inl rfl, fun other => ?_⟩
      exact leads_trans i _ _ _ _ _ _ (leads_occupy i j _ s) (leads_once i j other _)
  | runIdle j =>
      refine leads_held i j _ s σ between rests fun l place held => ⟨.ready, .inl rfl, fun other => ?_⟩
      exact leads_trans i _ _ _ _ _ _ (leads_occupy i j _ s) (leads_many i j other _ 0 _)
  | run j spawn =>
      refine leads_held i j _ s σ between rests fun l place held => ?_
      obtain ⟨e, leads, -⟩ := leads_run j spawn s l place held
      refine ⟨e.stage, by cases e <;> simp [Ending.stage], fun other => ?_⟩
      have whole := leads i other
      simp only [step, ifHeld, place, held, if_true] at whole
      exact whole
  | dropLoop j => exact absurd rfl (kept j)
  | dropRelay => exact ⟨σ, between, leads_move i σ σ .dropRelay s _ (fun _ => rfl) fun _ => rfl⟩

theorem leads_advance (σ σ' : Stage) (step : Step) (s : Stack)
    (stepped : (s.asThread mainThread).Leads i σ σ' ((s.asThread mainThread).step step).2) :
    s.Leads i σ σ' (s.advance step).2.2 := by
  let after := ((s.asThread mainThread).step step).2
  have hauled := leads_move i σ' σ' .haul after after.haul (fun _ => rfl) fun _ => rfl
  have told := leads_move i σ' σ' .tell after.haul (after.haul.onHub fun h => { h with journal := #[] }) (fun _ => rfl)
    fun _ => rfl
  exact leads_trans i _ _ _ _ _ _ (leads_turn i σ mainThread s)
    (leads_trans i _ _ _ _ _ _ stepped (leads_trans i _ _ _ _ _ _ hauled told))

theorem leads_session (steps : List Step) (s : Stack) (σ : Stage) (kept : ∀ k, .dropLoop k ∉ steps)
    (between : σ = .ready ∨ σ = .gone) (rests : s.Rests i σ) :
    ∃ σ', (σ' = .ready ∨ σ' = .gone) ∧ s.Leads i σ σ' (s.session steps) := by
  induction steps generalizing s σ with
  | nil => exact ⟨σ, between, leads_refl i σ s⟩
  | cons step rest ih =>
      have turned := (leads_rests i σ σ _ _ (leads_turn i σ mainThread s) rests).1
      obtain ⟨σ₁, between₁, stepped⟩ := leads_step i step (s.asThread mainThread) σ
        (fun k same => kept k (same ▸ List.mem_cons_self)) between turned
      have advanced := leads_advance i σ σ₁ step s stepped
      obtain ⟨σ₂, between₂, later⟩ := ih (s.advance step).2.2 σ₁ (fun k member => kept k (List.mem_cons_of_mem step member))
        between₁ (leads_rests i σ σ₁ _ _ advanced rests).1
      exact ⟨σ₂, between₂, leads_trans i _ _ _ _ _ _ advanced later⟩

end Stack

namespace Scene

variable (i : Nat)

theorem starts_rests (c : Scene) (l : RunLoop) (starts : c.Starts) (place : c.stack.loop? i = some l) :
    c = ⟨c.stack, []⟩ ∧ c.stack.Rests i .ready ∧ c.stack.Ordered i := by
  have idle : c = ⟨c.stack, []⟩ := by rw [← starts.idle]
  obtain ⟨settings, sits⟩ := starts_seat i c l starts place
  rw [idle] at sits
  exact ⟨idle, ⟨_, sits, Seat.fresh_fits settings⟩, _, sits.shows.place, List.Pairwise.nil⟩

/-- Every session is a run of moves in which each loop is driven stage by stage, and is between two tasks at the end
of it or has come to its own end. Its table has no two nanoapps under one id. -/
theorem session_driven (c : Scene) (steps : List Step) (l : RunLoop) (starts : c.Starts) (place : c.stack.loop? i = some l)
    (kept : ∀ k, .dropLoop k ∉ steps) :
    (c.stack.session steps).Ordered i ∧ ∃ moves σ, (σ = .ready ∨ σ = .gone) ∧ Stage.ready.after i moves c = some σ ∧
      c.run moves = ⟨c.stack.session steps, []⟩ := by
  obtain ⟨idle, rests, ordered⟩ := starts_rests i c l starts place
  obtain ⟨σ, between, leads⟩ := Stack.leads_session i steps c.stack .ready kept (.inl rfl) rests
  obtain ⟨moves, after, reached⟩ := leads []
  rw [← idle] at after reached
  exact ⟨(Stack.leads_rests i _ _ _ _ leads rests).2 ordered, moves, σ, between, after, reached⟩

/-- A loop that is run, at any point of a session, returns: it is driven through all its stages to the last. -/
theorem session_run (c : Scene) (steps : List Step) (spawn : Bool) (l l' : RunLoop) (starts : c.Starts)
    (place : c.stack.loop? i = some l) (kept : ∀ k, .dropLoop k ∉ steps) (held : (c.stack.session steps).loop? i = some l')
    (attached : l'.attached = true) :
    ∃ moves, Stage.ready.after i moves c = some .gone ∧
      c.run moves = ⟨c.stack.session (steps ++ [.run i spawn]), []⟩ := by
  obtain ⟨idle, rests, ordered⟩ := starts_rests i c l starts place
  obtain ⟨σ, between, leads⟩ := Stack.leads_session i steps c.stack .ready kept (.inl rfl) rests
  obtain ⟨rests', ordered'⟩ := Stack.leads_rests i _ _ _ _ leads rests
  have ready : σ = .ready := between.resolve_right fun gone => by
    obtain ⟨seat, sits, fits⟩ := rests'
    have same : seat.loop = l' := Option.some.inj (sits.shows.place.symm.trans held)
    have away := (fits.gone gone).1
    rw [same, attached] at away
    cases away
  subst ready
  obtain ⟨e, ran, closes⟩ := Stack.leads_run i spawn ((c.stack.session steps).asThread mainThread) l' held attached
  obtain rfl := closes (ordered' ordered)
  have whole := ran i .ready
  rw [Stage.seen_self, Stage.seen_self] at whole
  have advanced := Stack.leads_advance i .ready .gone (.run i spawn) _ whole
  have same : c.stack.session (steps ++ [.run i spawn]) = ((c.stack.session steps).advance (.run i spawn)).2.2 :=
    List.foldl_append
  obtain ⟨moves, after, reached⟩ := Stack.leads_trans i _ _ _ _ _ _ leads advanced []
  rw [← idle] at after reached
  rw [same]
  exact ⟨moves, after, reached⟩

end Scene

end HubRelay
