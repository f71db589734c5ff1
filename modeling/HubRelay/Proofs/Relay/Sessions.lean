import HubRelay.Proofs.Relay.Rotas
import HubRelay.Proofs.Relay.Scripts
import HubRelay.Proofs.Relay.Soundness

/-! A hub that is driven step by step goes through lawful moves only. So whatever holds throughout every run
of moves holds of it, after each step. -/

set_option autoImplicit false

namespace HubRelay

-- A bound on runs, which what two bounded runs add up to keeps to.
class Move.Bound (bound : List Move → Prop) : Prop where
  none : bound []
  both : ∀ moves more, bound moves → bound more → bound (moves ++ more)

def Move.Within (place : Option Nat) (moves : List Move) : Prop := ∀ m ∈ moves, Rota.Attends place m

def Move.Attended (moves : List Move) : Prop := ∀ rota : Rota, rota.Attended (moves.map .move)

instance (place : Option Nat) : Move.Bound (Move.Within place) where
  none := fun _ member => absurd member List.not_mem_nil
  both := fun _ _ first later => List.forall_mem_append.mpr ⟨first, later⟩

instance : Move.Bound Move.Attended where
  none := fun _ => trivial
  both := fun moves more first later rota => by
    rw [List.map_append, rota.attended_append]
    exact ⟨first rota, later _⟩

section Bounded

variable {bound : List Move → Prop} [Move.Bound bound]

namespace Scene

def Reaches (bound : List Move → Prop) (c c' : Scene) : Prop :=
  ∃ moves, (∀ m ∈ moves, m.Lawful) ∧ .dropRelay ∉ moves ∧ bound moves ∧ c.run moves = c'

theorem reaches_refl (c : Scene) : c.Reaches bound c := ⟨[], by simp, by simp, Move.Bound.none, rfl⟩

theorem reaches_trans (c c' c'' : Scene) (first : c.Reaches bound c') (later : c'.Reaches bound c'') : c.Reaches bound c'' := by
  obtain ⟨moves, lawful, kept, within, rfl⟩ := first
  obtain ⟨more, lawful', kept', within', rfl⟩ := later
  refine ⟨moves ++ more, List.forall_mem_append.mpr ⟨lawful, lawful'⟩, ?_, Move.Bound.both moves more within within',
    run_append moves more c⟩
  simp [kept, kept']

omit [Move.Bound bound] in
theorem reaches_move (m : Move) (c : Scene) (lawful : m.Lawful) (kept : m ≠ .dropRelay) (within : bound [m]) :
    c.Reaches bound (c.move m) :=
  ⟨[m], List.forall_mem_singleton.mpr lawful, by simpa using kept.symm, within, rfl⟩

omit [Move.Bound bound] in
theorem reaches_linked (c c' : Scene) (reaches : c.Reaches bound c') (linked : c.stack.Linked) : c'.stack.Linked := by
  obtain ⟨moves, lawful, -, -, rfl⟩ := reaches
  exact (run_invariant moves c (fun _ => True) lawful linked trivial (fun _ _ _ _ => id) fun _ => id).1

end Scene

end Bounded

def Traffic.Closing (i : Nat) (t : Traffic) : Prop := ∀ d, t.desks[i]? = some d → d.stopped = true

theorem Traffic.change_closing (past : Hub) (t t' : Traffic) (i : Nat) (change : Change past t t') (closing : t.Closing i) :
    t'.Closing i := by
  have replaced : ∀ (j : Nat) (d next : Desk), t.desks[j]? = some d → (d.stopped = true → next.stopped = true) →
      ∀ e, (t.desks.set j next)[i]? = some e → e.stopped = true := by
    intro j d next place keeps e here
    by_cases at' : j = i
    · subst at'
      rw [List.getElem?_set_self (List.getElem?_eq_some_iff.mp place).1] at here
      cases here
      exact keeps (closing d place)
    · rw [List.getElem?_set_ne at'] at here
      exact closing e here
  cases change with
  | shut j d place => exact replaced j d _ place fun _ => rfl
  | detach j d place stopped => exact replaced j d _ place id
  | request j d badge known place issued within => exact replaced j d _ place id
  | _ => exact closing

namespace Stack

structure Drives (bound : List Move → Prop) (s s' : Stack) : Prop where
  reaches : ∀ hand, Scene.Reaches bound ⟨s, hand⟩ ⟨s', hand⟩
  linked : s'.Linked
  tame : s'.Tame

section Bounded

variable {bound : List Move → Prop} [Move.Bound bound]

theorem drives_refl (s : Stack) (linked : s.Linked) (tame : s.Tame) : s.Drives bound s :=
  ⟨fun hand => Scene.reaches_refl ⟨s, hand⟩, linked, tame⟩

theorem drives_trans (s s' s'' : Stack) (first : s.Drives bound s') (later : s'.Drives bound s'') : s.Drives bound s'' :=
  ⟨fun hand => Scene.reaches_trans _ _ _ (first.reaches hand) (later.reaches hand), later.linked, later.tame⟩

omit [Move.Bound bound] in
theorem drives_move (m : Move) (s s' : Stack) (lawful : m.Lawful) (kept : m ≠ .dropRelay) (within : bound [m])
    (linked : s.Linked) (tame : s'.Tame) (moved : ∀ hand, (Scene.mk s hand).move m = ⟨s', hand⟩) : s.Drives bound s' := by
  have reaches : ∀ hand, Scene.Reaches bound ⟨s, hand⟩ ⟨s', hand⟩ := fun hand =>
    moved hand ▸ Scene.reaches_move m ⟨s, hand⟩ lawful kept within
  exact ⟨reaches, Scene.reaches_linked _ _ (reaches []) linked, tame⟩

end Bounded

theorem within_move {place : Option Nat} (m : Move) (attends : Rota.Attends place m) : Move.Within place [m] :=
  List.forall_mem_singleton.mpr attends

section Driver

variable (place : Option Nat)

theorem drives_act (a : Action) (s : Stack) (lawful : a.Tame) (linked : s.Linked) (tame : s.Tame) : s.Drives (Move.Within place) (s.act a).2 :=
  drives_move (.act a) s _ (a.tame_lawful lawful) (by simp) (within_move _ trivial) linked (tame_act a s lawful linked tame) fun _ => rfl

theorem drives_note (n : Note) (s : Stack) (linked : s.Linked) (tame : s.Tame) : s.Drives (Move.Within place) (s.note n) :=
  drives_move (.note n) s _ trivial (by simp) (within_move _ trivial) linked (Hub.tame_note s.hub n tame) fun _ => rfl

theorem drives_perform (script : Script) (s : Stack) (lawful : Script.Tame script) (linked : s.Linked) (tame : s.Tame) :
    s.Drives (Move.Within place) (s.perform script) := by
  induction script generalizing s with
  | nil => exact drives_refl s linked tame
  | cons a rest ih =>
      have acted := drives_act place a s (lawful a List.mem_cons_self) linked tame
      have noted := drives_note place (.answered (s.act a).1) _ acted.linked acted.tame
      have later := ih _ (fun b member => lawful b (List.mem_cons_of_mem a member)) noted.linked noted.tame
      exact drives_trans _ _ _ acted (drives_trans _ _ _ noted later)

end Driver

theorem drives_task (i : Nat) (t : Task) (s next : Stack) (linked : s.Linked) (tame : s.Tame)
    (taken : s.next? i = some (t, next)) : s.Drives (Move.Within (some i)) (next.runTask i t) := by
  obtain ⟨carried, tame'⟩ := tame_next i t s next tame taken
  have started := tame_startTask i t next tame' carried
  have begun : ∀ hand, (Scene.mk s hand).move (.take i) =
      ⟨(next.startTask i t).2.2, (i, (next.startTask i t).2.1) :: hand⟩ := by
    intro hand
    simp only [Scene.move, Scene.take, taken]
  have first : ∀ hand, Scene.Reaches (Move.Within (some i)) ⟨s, hand⟩ ⟨(next.startTask i t).2.2, (i, (next.startTask i t).2.1) :: hand⟩ :=
    fun hand => begun hand ▸ Scene.reaches_move (.take i) ⟨s, hand⟩ trivial (by simp) (within_move _ rfl)
  have performed := drives_perform (some i) (next.startTask i t).1 (next.startTask i t).2.2 started.script
    (Scene.reaches_linked _ _ (first []) linked) started.stack
  have ended : ∀ hand, Scene.Reaches (Move.Within (some i))
      ⟨(next.startTask i t).2.2.perform (next.startTask i t).1, (i, (next.startTask i t).2.1) :: hand⟩
      ⟨next.runTask i t, hand⟩ :=
    fun hand => Scene.reaches_move (.finish 0) _ trivial (by simp) (within_move _ trivial)
  have reaches : ∀ hand, Scene.Reaches (Move.Within (some i)) ⟨s, hand⟩ ⟨next.runTask i t, hand⟩ := fun hand =>
    Scene.reaches_trans _ _ _ (first hand) (Scene.reaches_trans _ _ _ (performed.reaches _) (ended hand))
  exact ⟨reaches, Scene.reaches_linked _ _ (reaches []) linked, tame_finishTask i _ _ performed.tame started.rest⟩

theorem drives_once (i : Nat) (s : Stack) (linked : s.Linked) (tame : s.Tame) : s.Drives (Move.Within (some i)) (s.runOnce i).2 := by
  unfold runOnce
  split
  · exact drives_refl s linked tame
  · next t next taken => exact drives_task i t s next linked tame taken

theorem drives_many (i fuel done : Nat) (s : Stack) (linked : s.Linked) (tame : s.Tame) :
    s.Drives (Move.Within (some i)) (s.runMany i fuel done).2 := by
  induction fuel generalizing done s with
  | zero => exact drives_refl s linked tame
  | succ fuel ih =>
      have once := drives_once i s linked tame
      rw [runMany]
      split
      · next after worked =>
          rw [worked] at once
          exact once
      · next after worked =>
          rw [worked] at once
          exact drives_trans _ _ _ once (ih (done + 1) after once.linked once.tame)

def Closing (i : Nat) (s : Stack) : Prop := ∀ l, s.loop? i = some l → l.stopped = true

theorem closing_traffic (i : Nat) (s : Stack) : s.Closing i ↔ (Scene.mk s []).traffic.Closing i := by
  unfold Closing Traffic.Closing loop? Scene.traffic Hub.traffic
  simp only [List.getElem?_map, Option.map_eq_some_iff]
  constructor
  · rintro closing d ⟨l, place, rfl⟩
    exact closing l place
  · exact fun closing l place => closing l.desk ⟨l, place, rfl⟩

theorem drives_closing (i : Nat) (s s' : Stack) (drives : s.Drives (Move.Within (some i)) s') (linked : s.Linked) (closing : s.Closing i) :
    s'.Closing i := by
  obtain ⟨moves, lawful, -, -, reached⟩ := drives.reaches []
  have kept := Scene.run_invariant moves ⟨s, []⟩ (Traffic.Closing i) lawful linked ((closing_traffic i s).mp closing)
    (fun past t t' change => Traffic.change_closing past t t' i change) fun _ => id
  rw [reached] at kept
  exact (closing_traffic i s').mpr kept.2

theorem drives_drop (i : Nat) (t : Task) (s next : Stack) (linked : s.Linked) (tame : s.Tame) (closing : s.Closing i)
    (taken : s.next? i = some (t, next)) (plain : ∀ j, t ≠ .job j) : s.Drives (Move.Within (some i)) (s.dropTask i) := by
  obtain ⟨-, tame'⟩ := tame_next i t s next tame taken
  obtain ⟨l, queue, place, -, -⟩ := next_cases i t s next taken
  have shut : s.isShut i = true := by
    have stopped := closing l place
    simp only [isShut, loop?, place, Option.map_some, stopped, Option.getD_some]
  refine drives_move (.drop i) s _ trivial (by simp) (within_move _ trivial) linked ?_ fun hand => by simp only [Scene.move, shut, if_true]; rfl
  cases t with
  | event e =>
      simp only [dropTask, taken]
      have counted := tame_modify i (fun l => l.freeEvent.countDropped) next tame' fun _ held =>
        ⟨held.queue, held.apps, held.leaving⟩
      exact Hub.tame_discard _ e (Hub.tame_record _ _ (Hub.tame_call _ i (.drop e) counted))
  | job j => exact absurd rfl (plain j)
  | load | unload | stop =>
      simp only [dropTask, taken]
      exact tame'

theorem drives_discharge (i fuel : Nat) (s : Stack) (linked : s.Linked) (tame : s.Tame) (closing : s.Closing i) :
    s.Drives (Move.Within (some i)) (s.discharge i fuel) := by
  induction fuel generalizing s with
  | zero => exact drives_refl s linked tame
  | succ fuel ih =>
      have again : ∀ s', s.Drives (Move.Within (some i)) s' → s.Drives (Move.Within (some i)) (s'.discharge i fuel) := fun s' first =>
        drives_trans _ _ _ first (ih s' first.linked first.tame (drives_closing i s s' first linked closing))
      have dropped : ∀ t next, s.next? i = some (t, next) → (∀ j, t ≠ .job j) → s.Drives (Move.Within (some i)) (s.dropTask i) :=
        fun t next taken plain => drives_drop i t s next linked tame closing taken plain
      rw [discharge]
      split
      · exact drives_refl s linked tame
      · next j next taken => exact again _ (drives_task i (.job j) s next linked tame taken)
      · next e next taken =>
          have drop := dropped _ next taken (by simp)
          rw [dropTask, taken] at drop
          exact again _ drop
      · next t next notJob notEvent taken =>
          have drop := dropped t next taken notJob
          have same : s.dropTask i = next := by
            cases t with
            | event e => exact (notEvent e rfl).elim
            | job j => exact (notJob j rfl).elim
            | load | unload | stop => simp only [dropTask, taken]
          rw [same] at drop
          exact again _ drop

theorem drives_endApp (i place : Nat) (s : Stack) (linked : s.Linked) (tame : s.Tame) :
    s.Drives (Move.Within (some i)) (s.endApp i place) := by
  obtain ⟨carried, tame'⟩ := tame_quit i place s tame
  have left : s.Drives (Move.Within (some i)) (s.quit i place).2 :=
    drives_move (.quit i place) s _ trivial (by simp) (within_move _ trivial) linked tame' fun _ => rfl
  exact drives_trans _ _ _ left (drives_perform (some i) (s.quit i place).1 _ carried left.linked left.tame)

theorem drives_endApps (i n : Nat) (s : Stack) (linked : s.Linked) (tame : s.Tame) :
    s.Drives (Move.Within (some i)) (s.endApps i n) := by
  induction n generalizing s with
  | zero => exact drives_refl s linked tame
  | succ n ih =>
      have first := drives_endApp i 0 s linked tame
      exact drives_trans _ _ _ first (ih _ first.linked first.tame)

theorem shut_closing (i : Nat) (s : Stack) : (s.shut i).Closing i := by
  intro l place
  unfold shut modifyLoop onHub loop? Hub.modifyLoop at place
  rw [List.getElem?_modify_eq, Option.map_eq_map, Option.map_eq_some_iff] at place
  obtain ⟨l', -, rfl⟩ := place
  rfl

theorem detach_absent (i : Nat) (s : Stack) (absent : s.loop? i = none) : s.detach i = s := by
  rcases s.hub.modify_cases i fun l => { l with attached := false } with ⟨-, same⟩ | ⟨l, place, -⟩
  · rw [detach, modifyLoop, onHub, same]
  · exact absurd (place.symm.trans absent) (by simp)

theorem drives_detach (i : Nat) (s : Stack) (linked : s.Linked) (tame : s.Tame) (closing : s.Closing i) :
    s.Drives (Move.Within (some i)) (s.detach i) := by
  cases place : s.loop? i with
  | none =>
      rw [detach_absent i s place]
      exact drives_refl s linked tame
  | some l =>
      have shut : s.isShut i = true := by
        rw [isShut, place, Option.map_some, closing l place, Option.getD_some]
      refine drives_move (.detach i) s _ trivial (by simp) (within_move _ trivial) linked ?_ fun hand => by simp only [Scene.move, shut, if_true]; rfl
      exact tame_modify i _ s tame fun _ held => ⟨held.queue, held.apps, held.leaving⟩

theorem drives_close (i : Nat) (s : Stack) (linked : s.Linked) (tame : s.Tame) : s.Drives (Move.Within (some i)) (s.close i) := by
  have shut : s.Drives (Move.Within (some i)) (s.shut i) :=
    drives_move (.shut i) s _ trivial (by simp) (within_move _ trivial) linked (tame_shut i s tame) fun _ => rfl
  have ended := drives_endApps i ((s.shut i).leaving i).length (s.shut i) shut.linked shut.tame
  generalize reached : (s.shut i).endApps i ((s.shut i).leaving i).length = after at ended
  have cleared : after.Drives (Move.Within (some i)) (after.clearRoster i) :=
    drives_move (.clearRoster i) after _ trivial (by simp) (within_move _ trivial) ended.linked
      (tame_modify i _ after ended.tame fun _ held => ⟨held.queue, held.apps, held.leaving⟩) fun _ => rfl
  have closed : (after.clearRoster i).Closing i :=
    drives_closing i after _ cleared ended.linked (drives_closing i _ _ ended shut.linked (shut_closing i s))
  have discharged := drives_discharge i ((after.clearRoster i).weight + 1) _ cleared.linked cleared.tame closed
  have detached := drives_detach i _ discharged.linked discharged.tame
    (drives_closing i _ _ discharged cleared.linked closed)
  rw [close, reached]
  exact drives_trans _ _ _ shut (drives_trans _ _ _ ended
    (drives_trans _ _ _ cleared (drives_trans _ _ _ discharged detached)))

theorem drives_runFor (i fuel : Nat) (s : Stack) (linked : s.Linked) (tame : s.Tame) : s.Drives (Move.Within (some i)) (s.runFor i fuel).2 := by
  induction fuel generalizing s with
  | zero => exact drives_refl s linked tame
  | succ fuel ih =>
      rw [runFor]
      split
      · exact drives_refl s linked tame
      · next next taken =>
          have stopped : s.Drives (Move.Within (some i)) next := drives_task i .stop s next linked tame taken
          exact drives_trans _ _ _ stopped (drives_close i next stopped.linked stopped.tame)
      · next t next _ taken =>
          have worked := drives_task i t s next linked tame taken
          simp only
          split
          · exact drives_trans _ _ _ worked (drives_close i _ worked.linked worked.tame)
          · exact drives_trans _ _ _ worked (ih _ worked.linked worked.tame)

theorem drives_attended (s s' : Stack) (drives : s.Drives (Move.Within none) s') : s.Drives Move.Attended s' := by
  refine ⟨fun hand => ?_, drives.linked, drives.tame⟩
  obtain ⟨moves, lawful, kept, within, reached⟩ := drives.reaches hand
  exact ⟨moves, lawful, kept, fun rota => rota.attended_moves none moves within fun i at' => (nomatch at'), reached⟩

theorem drives_occupied (i : Nat) (s s' : Stack) (drives : (s.occupy i).Drives (Move.Within (some i)) s') :
    s.Drives Move.Attended s' := by
  refine ⟨fun hand => ?_, drives.linked, drives.tame⟩
  obtain ⟨moves, lawful, kept, within, reached⟩ := drives.reaches hand
  refine ⟨.occupy i :: moves, List.forall_mem_cons.mpr ⟨trivial, lawful⟩, ?_, fun rota => ⟨fun j other => (nomatch other), ?_⟩,
    reached⟩
  · simpa using kept
  · refine (rota.next (.move (.occupy i))).attended_moves (some i) moves within fun j at' => ?_
    cases at'
    simp only [Rota.next, if_true]

theorem drives_turn (thread : Thread) (s : Stack) (linked : s.Linked) (tame : s.Tame) :
    s.Drives Move.Attended (s.asThread thread) :=
  drives_move (.turn thread) s _ trivial (by simp) (fun _ => ⟨fun i other => (nomatch other), trivial⟩) linked
    (Hub.tame_same s.hub _ tame rfl rfl) fun _ => rfl

theorem tame_occupy (i : Nat) (s : Stack) (tame : s.Tame) : (s.occupy i).Tame :=
  tame_modify i _ s tame fun _ held => ⟨held.queue, held.apps, held.leaving⟩

theorem drives_ifHeld (i : Nat) (f : RunLoop → Reply × Stack) (s : Stack) (linked : s.Linked) (tame : s.Tame)
    (each : ∀ l, s.loop? i = some l → s.Drives Move.Attended (f l).2) : s.Drives Move.Attended (s.ifHeld i f).2 := by
  unfold ifHeld
  split
  · exact drives_refl s linked tame
  · next l place =>
      split
      · exact each l place
      · exact drives_refl s linked tame

theorem drives_stop (i : Nat) (l : RunLoop) (s : Stack) (linked : s.Linked) (tame : s.Tame) (place : s.loop? i = some l) :
    s.Drives Move.Attended (s.modifyLoop i (·.stop none)) := by
  have stopped := drives_attended s _ (drives_act none (.stop i true) s (.intro _ trivial Script.tame_nil) linked tame)
  have here : s.hub.loops[i]? = some l := place
  rw [act, ifLoop, here] at stopped
  exact stopped

end Stack

def Step.Tame : Step → Prop
  | .act a => a.Tame
  | .dropLoop _ | .dropRelay => False
  | .runOnce _ | .runIdle _ | .run _ _ => True

namespace Stack

theorem drives_step (step : Step) (s : Stack) (lawful : step.Tame) (linked : s.Linked) (tame : s.Tame) :
    s.Drives Move.Attended (s.step step).2 := by
  cases step with
  | act a => exact drives_attended s _ (drives_act none a s lawful linked tame)
  | runOnce i =>
      exact drives_ifHeld i _ s linked tame fun _ _ => drives_occupied i s _ (drives_once i _ linked (tame_occupy i s tame))
  | runIdle i =>
      exact drives_ifHeld i _ s linked tame fun _ _ => drives_occupied i s _ (drives_many i _ 0 _ linked (tame_occupy i s tame))
  | run i spawn =>
      refine drives_ifHeld i _ s linked tame fun l place => ?_
      have stopped := drives_stop i l s linked tame place
      have ran : ∀ s' : Stack, s'.Linked → s'.Tame → s'.Drives Move.Attended ((s'.occupy i).run i).2 := fun s' linked tame =>
        drives_occupied i s' _ (drives_runFor i _ _ linked (tame_occupy i s' tame))
      simp only
      split
      · have turned := drives_turn (s.modifyLoop i (·.stop none)).threads _ stopped.linked stopped.tame
        exact drives_trans _ _ _ stopped (drives_trans _ _ _ turned (ran _ turned.linked turned.tame))
      · exact drives_trans _ _ _ stopped (ran _ stopped.linked stopped.tame)
  | dropLoop i => exact lawful.elim
  | dropRelay => exact lawful.elim

theorem drives_haul (s : Stack) (linked : s.Linked) (tame : s.Tame) : s.Drives Move.Attended s.haul :=
  drives_attended s _ (drives_move .haul s _ trivial (by simp) (within_move _ trivial) linked (tame_haul s tame) fun _ => rfl)

theorem drives_tell (s : Stack) (linked : s.Linked) (tame : s.Tame) :
    s.Drives Move.Attended (s.onHub fun h => { h with journal := #[] }) :=
  drives_attended s _ (drives_move .tell s _ trivial (by simp) (within_move _ trivial) linked
    (Hub.tame_same s.hub _ tame rfl rfl) fun _ => rfl)

def session (steps : List Step) (s : Stack) : Stack := steps.foldl (fun s step => (s.advance step).2.2) s

end Stack

namespace Scene

theorem opens_tame (link : LinkSettings) (c : Scene) (opens : c.Opens link) : c.stack.Linked ∧ c.stack.Tame := by
  obtain ⟨-, linked, -, ⟨r, n, relay, pool, -⟩, -, loops⟩ := opens_cases link c opens
  refine ⟨⟨_, linked⟩, fun l member => ?_, fun r' relay' p member => ?_⟩
  · obtain ⟨settings, rfl⟩ := loops l member
    exact ⟨fun t waits => (nomatch waits), fun a loaded => (nomatch loaded), fun a left => (nomatch left)⟩
  · rw [relay] at relay'
    cases relay'
    obtain ⟨slot, listed, state⟩ := (SlotPool.mem_live p _).mp member
    rw [pool, SlotPool.ofCapacity, Array.toList_replicate] at listed
    rw [(List.mem_replicate.mp listed).2] at state
    cases state

end Scene

end HubRelay
