import HubRelay.Proofs.Relay.Tasks

/-! Each lawful move is a sequence of changes, as the hub before it decides. -/

set_option autoImplicit false

namespace HubRelay

variable {hand : List (Nat × Epilogue)}

namespace Stack

def Yields (hand : List (Nat × Epilogue)) (s next : Stack) : Prop :=
  next.Linked ∧ Follows s.hub (s.traffic hand) (next.traffic hand)

theorem yields_hub (s : Stack) (hub : Hub) (linked : s.Linked)
    (follows : Follows s.hub (s.traffic hand) (hub.traffic s.link.waiting hand)) :
    Yields hand s { s with hub := hub } :=
  ⟨linked, follows⟩

theorem yields_same (s next : Stack) (linked : s.Linked) (link : next.link = s.link)
    (same : next.traffic hand = s.traffic hand) : Yields hand s next := by
  obtain ⟨u, here⟩ := linked
  exact ⟨⟨u, link.trans here⟩, follows_to .refl same⟩

theorem endCycle_traffic (s : Stack) : s.endCycle.traffic hand = s.traffic hand := by
  simp only [endCycle, traffic, onHub, Hub.onRelay, Hub.traffic]
  cases s.hub.relay <;> rfl

theorem enqueue_yields (s next : Stack) (i : Nat) (t : Task) (linked : s.Linked) (plain : ¬t.IsLoad)
    (idle : t.errand? = none) (queued : s.enqueue i t = .ok next) : Yields hand s next := by
  unfold enqueue at queued
  split at queued
  · next hub taken =>
      cases queued
      refine yields_hub s hub linked (follows_to .refl ?_)
      rw [Hub.traffic_enqueue s.hub hub i t plain taken, Task.errands_none i t _ idle]
      rfl
  · cases queued

theorem uplink_yields (c : UplinkCall) (u : Uplink) (s : Stack) (link : s.link = .uplink u) :
    Yields hand s (s.onUplink c u).2 := by
  have waiting : s.link.waiting = u.queue.toList := by rw [link]; rfl
  have calls : ∀ u' : Uplink, u'.queue = u.queue → Yields hand s (s.setUplink u') := by
    intro u' queue
    refine ⟨⟨u', rfl⟩, follows_to .refl ?_⟩
    simp only [traffic, waiting]
    simp only [setUplink, Link.waiting, queue]
  cases c with
  | start =>
      simp only [onUplink]
      split
      · next u' started =>
          obtain rfl := Uplink.start_ok started
          exact calls _ rfl
      · exact ⟨⟨u, link⟩, .refl⟩
  | pump limit =>
      refine ⟨⟨_, rfl⟩, ?_⟩
      have pumped := (@Uplink.pump_follows hand s.hub s.hub limit u rfl).1
      rw [← waiting] at pumped
      exact pumped
  | pause => exact calls _ rfl
  | resume => exact calls _ rfl
  | spoil count => exact calls _ rfl
  | takeReceived => exact calls _ rfl

theorem haul_yields (s : Stack) (linked : s.Linked) : Yields hand s s.haul := by
  obtain ⟨u, link⟩ := linked
  have hauled := (@Uplink.haul_follows hand s.hub s.hub u rfl).1
  have waiting : s.link.waiting = u.queue.toList := by rw [link]; rfl
  simp only [haul, link]
  rw [← waiting] at hauled
  exact ⟨⟨_, rfl⟩, hauled⟩

theorem flush_yields (s : Stack) (linked : s.Linked) : Yields hand s s.flush.2 := by
  obtain ⟨u, link⟩ := linked
  have hauled := (@Uplink.haul_follows hand s.hub s.hub u rfl).1
  have waiting : s.link.waiting = u.queue.toList := by rw [link]; rfl
  simp only [flush, link]
  rw [← waiting] at hauled
  exact ⟨⟨_, rfl⟩, hauled⟩

theorem shutdown_yields (s : Stack) (linked : s.Linked) : Yields hand s s.shutdown := by
  obtain ⟨u, link⟩ := linked
  have shut := @Uplink.shutdown_follows hand s.hub s.hub u rfl
  have waiting : s.link.waiting = u.queue.toList := by rw [link]; rfl
  simp only [shutdown, link]
  rw [← waiting] at shut
  exact ⟨⟨_, rfl⟩, shut⟩

theorem ifLoop_yields (i : Nat) (f : RunLoop → Reply × Stack) (s : Stack) (linked : s.Linked)
    (each : ∀ l, Yields hand s (f l).2) : Yields hand s (s.ifLoop i f).2 :=
  s.ifLoop_keeps (Yields hand s) i f ⟨linked, .refl⟩ fun l _ => each l

theorem ifRelay_yields (f : Stack → Reply × Stack) (s : Stack) (linked : s.Linked) (each : Yields hand s (f s).2) :
    Yields hand s (s.ifRelay f).2 :=
  s.ifRelay_keeps (Yields hand s) f ⟨linked, .refl⟩ each

theorem act_yields (a : Action) (s : Stack) (lawful : a.Lawful) (linked : s.Linked) : Yields hand s (s.act a).2 := by
  have idle : Yields hand s s := ⟨linked, .refl⟩
  cases a with
  | load i app permissions program =>
      exact ifLoop_yields i _ s linked fun _ =>
        yields_hub s _ linked (Hub.requestLoad_follows s.hub s.hub i app permissions program)
  | loadMany i app count =>
      exact ifLoop_yields i _ s linked fun _ =>
        yields_hub s _ linked (Hub.requestLoads_follows s.hub s.hub i count app .done)
  | unload i app =>
      refine ifLoop_yields i _ s linked fun _ => ?_
      split
      · next next queued => exact enqueue_yields s next i (.unload app) linked id rfl queued
      · exact idle
  | find i app => exact ifLoop_yields i _ s linked fun _ => idle
  | grab i app name =>
      refine ifLoop_yields i _ s linked fun _ => ?_
      split
      · exact idle
      · exact idle
      · exact ⟨linked, .refl⟩
  | enrol name app inst permissions => exact ⟨linked, .refl⟩
  | post i event =>
      refine ifLoop_yields i _ s linked fun _ => ?_
      have plain : ∀ k n, ¬event.bears k n := lawful
      rcases Hub.event_cases event with ⟨k, n, bears⟩ | ⟨-, errand, -, same⟩
      · exact absurd bears (plain k n)
      · split
        · next next queued => exact enqueue_yields s next i (.event event) linked id errand queued
        · exact yields_hub s _ linked (follows_to .refl (same s.hub _ hand))
  | defer i label script =>
      refine ifLoop_yields i _ s linked fun _ => ?_
      split
      · next next queued => exact enqueue_yields s next i (.job (.user label script)) linked id rfl queued
      · exact ⟨linked, .refl⟩
  | stop i elsewhere =>
      refine ifLoop_yields i _ s linked fun _ => ?_
      exact yields_hub s _ linked (follows_to .refl (s.hub.traffic_modify i _ (RunLoop.quiet_stop _)))
  | send dispatch => exact send_follows s.hub dispatch s linked
  | complete r => exact lawful.elim
  | retry r => exact lawful.elim
  | deliver arrival viaLink =>
      simp only [act]
      split
      · next routing hub received => exact yields_hub s hub linked (Hub.receive_follows s.hub hub arrival routing received)
      · exact idle
  | resetClaim => exact ifRelay_yields _ s linked (yields_same s _ linked rfl (endCycle_traffic s))
  | shutdown => exact ifRelay_yields _ s linked (shutdown_yields s linked)
  | flush => exact ifRelay_yields _ s linked (flush_yields s linked)
  | suspend =>
      simp only [act]
      split
      · exact yields_same s _ linked rfl (endCycle_traffic _)
      · exact ⟨linked, .refl⟩
  | wake => exact ⟨linked, .refl⟩
  | uplink call =>
      obtain ⟨u, link⟩ := linked
      simp only [act, link]
      exact uplink_yields call u s link
  | puppet call =>
      obtain ⟨u, link⟩ := linked
      simp only [act, link]
      exact idle
  | malformed toRelay =>
      simp only [act]
      split
      · exact ifRelay_yields _ s linked idle
      · exact idle

theorem shut_yields (s : Stack) (i : Nat) (linked : s.Linked) : Yields hand s (s.shut i) := by
  refine ⟨linked, ?_⟩
  rcases s.hub.modify_cases i RunLoop.shut with ⟨-, same⟩ | ⟨l, place, change⟩
  · rw [shut, modifyLoop, onHub, same]
  · rw [shut, modifyLoop, onHub, change]
    refine follows_to (.tail (.single (.shut i l.desk (Hub.desk_place s.hub i l place)))
      (.narrow _ fun j b knows => ?_)) (Hub.traffic_set_desk _ _ s.hub i l _ place rfl)
    rcases knows with held | knows
    · exact .inl held
    · rcases Hub.knows_set_within s.hub i j l _ b place knows with ⟨rfl, listed | ⟨a, member, -⟩ | waits⟩ | there
      · exact .inr ⟨l, place, .inl listed⟩
      · cases member
      · exact .inr ⟨l, place, .inr (.inr waits)⟩
      · exact .inr there

theorem quit_yields (s : Stack) (i place : Nat) (linked : s.Linked) : Yields hand s (s.quit i place).2 := by
  obtain ⟨journal, calls, left⟩ := quit_cases i place s
  rw [left]
  exact ⟨linked, modify_follows s.hub s i (·.dismiss place) (fun _ => rfl) (fun _ _ knows => knows) fun _ => rfl⟩

theorem isShut_cases (s : Stack) (i : Nat) (shut : s.isShut i = true) :
    ∃ l, s.hub.loops[i]? = some l ∧ l.stopped = true := by
  unfold isShut loop? at shut
  cases place : s.hub.loops[i]? with
  | none => simp [place] at shut
  | some l => exact ⟨l, rfl, by simpa [place] using shut⟩

theorem detach_yields (s : Stack) (i : Nat) (linked : s.Linked) (shut : s.isShut i = true) :
    Yields hand s (s.detach i) := by
  obtain ⟨l, place, stopped⟩ := isShut_cases s i shut
  refine ⟨linked, ?_⟩
  rcases s.hub.modify_cases i fun l => { l with attached := false } with ⟨beyond, -⟩ | ⟨l', place', change⟩
  · rw [place] at beyond
    cases beyond
  · rw [place] at place'
    cases place'
    rw [detach, modifyLoop, onHub, change]
    refine follows_to (.tail (.single (.detach i l.desk (Hub.desk_place s.hub i l place) stopped))
      (.narrow _ fun j b knows => ?_)) (Hub.traffic_set_desk _ _ s.hub i l _ place rfl)
    rcases knows with held | knows
    · exact .inl held
    · rcases Hub.knows_set_within s.hub i j l _ b place knows with ⟨rfl, known⟩ | there
      · exact .inr ⟨l, place, known⟩
      · exact .inr there

theorem clearRoster_yields (s : Stack) (i : Nat) (linked : s.Linked) : Yields hand s (s.clearRoster i) := by
  refine ⟨linked, modify_follows s.hub s i _ (fun _ => rfl) (fun l b knows => ?_) fun _ => rfl⟩
  rcases knows with listed | other
  · cases listed
  · exact .inr other

theorem dropEvent_follows (s next : Stack) (i : Nat) (e : Event) (shut : s.isShut i = true)
    (taken : s.next? i = some (.event e, next)) : Follows s.hub (s.traffic hand) ((next.dropEvent i e).traffic hand) := by
  obtain ⟨l, place, stopped⟩ := isShut_cases s i shut
  let counted := (next.modifyLoop i fun l => l.freeEvent.countDropped).onHub (·.call i (.drop e))
  have same : counted.traffic hand = next.traffic hand :=
    modify_traffic next i (fun l => l.freeEvent.countDropped) fun l => ⟨fun _ => rfl, fun _ => .rfl, rfl⟩
  have dropped := @drop_follows hand s.hub counted i e (.drained i e) ⟨l, place, .inr ⟨rfl, stopped⟩⟩
  rw [same] at dropped
  rw [next_traffic s next i _ id taken]
  exact dropped

theorem dropTask_yields (s : Stack) (i : Nat) (linked : s.Linked) (shut : s.isShut i = true) :
    Yields hand s (s.dropTask i) := by
  unfold dropTask
  split
  · exact ⟨linked, .refl⟩
  · exact ⟨linked, .refl⟩
  · next e next taken =>
      obtain ⟨u, link⟩ := linked
      exact ⟨⟨u, (next_outlook s next i _ taken).2.1.trans link⟩, dropEvent_follows s next i e shut taken⟩
  · next t next notJob notEvent taken =>
      obtain ⟨u, link⟩ := linked
      refine ⟨⟨u, (next_outlook s next i _ taken).2.1.trans link⟩, ?_⟩
      cases t with
      | event e => exact (notEvent e rfl).elim
      | job j => exact (notJob j rfl).elim
      | load badge program =>
          obtain ⟨same, -, within⟩ := @next_load hand s next i badge program taken
          rw [same]
          exact .single (.narrow _ within)
      | unload app =>
          rw [next_traffic s next i _ id taken, Task.errands_none i _ _ rfl]
      | stop =>
          rw [next_traffic s next i _ id taken, Task.errands_none i _ _ rfl]

end Stack

namespace Hub

theorem dropRelay_traffic (h : Hub) (waiting : Multiset Outgoing) :
    h.dropRelay.2.traffic waiting hand = (h.traffic waiting hand).bereft := by
  obtain ⟨journal, dropped⟩ := h.dropRelay_cases
  rw [dropped]
  rfl

end Hub

namespace Scene

theorem move_follows (m : Move) (c : Scene) (lawful : m.Lawful) (linked : c.stack.Linked) :
    (c.move m).stack.Linked ∧
      (Follows c.stack.hub c.traffic (c.move m).traffic ∨ m = .dropRelay ∧ (c.move m).traffic = c.traffic.bereft) := by
  have done : ∀ {next : Scene}, next.stack.Linked ∧ Follows c.stack.hub c.traffic next.traffic →
      next.stack.Linked ∧ (Follows c.stack.hub c.traffic next.traffic ∨ m = .dropRelay ∧ next.traffic = c.traffic.bereft) :=
    fun yields => ⟨yields.1, .inl yields.2⟩
  cases m with
  | act a => exact done (Stack.act_yields a c.stack lawful linked)
  | haul => exact done (Stack.haul_yields c.stack linked)
  | turn thread => exact ⟨linked, .inl .refl⟩
  | note n => exact ⟨linked, .inl .refl⟩
  | tell => exact ⟨linked, .inl .refl⟩
  | occupy i =>
      exact ⟨linked, .inl (follows_to .refl (Stack.modify_traffic c.stack i _ (RunLoop.quiet_occupy _)))⟩
  | take i =>
      simp only [move, take]
      split
      · exact ⟨linked, .inl .refl⟩
      · next t s taken =>
          obtain ⟨link, follows⟩ := @Stack.startTask_follows c.hand c.stack s i t taken
          obtain ⟨u, here⟩ := linked
          exact ⟨⟨u, link.trans here⟩, .inl follows⟩
  | finish place =>
      simp only [move, finish]
      split
      · exact ⟨linked, .inl .refl⟩
      · next i rest here =>
          obtain ⟨link, follows⟩ := Stack.finishTask_follows c.stack.hub c.stack place i rest here
          obtain ⟨u, there⟩ := linked
          exact ⟨⟨u, link.trans there⟩, .inl follows⟩
  | shut i => exact done (Stack.shut_yields c.stack i linked)
  | quit i place => exact done (Stack.quit_yields c.stack i place linked)
  | clearRoster i => exact done (Stack.clearRoster_yields c.stack i linked)
  | drop i =>
      simp only [move]
      split
      · next shut => exact done (Stack.dropTask_yields c.stack i linked shut)
      · exact ⟨linked, .inl .refl⟩
  | detach i =>
      simp only [move]
      split
      · next shut => exact done (Stack.detach_yields c.stack i linked shut)
      · exact ⟨linked, .inl .refl⟩
  | dropRelay => exact ⟨linked, .inr ⟨rfl, Hub.dropRelay_traffic c.stack.hub _⟩⟩

theorem follows_invariant (past : Hub) (t t' : Traffic) (inv : Traffic → Prop) (follows : Follows past t t')
    (first : inv t) (keeps : ∀ t t', Change past t t' → inv t → inv t') : inv t' := by
  induction follows with
  | refl => exact first
  | tail _ change held => exact keeps _ _ change held

theorem run_invariant (moves : List Move) (c : Scene) (inv : Traffic → Prop) (lawful : ∀ m ∈ moves, m.Lawful)
    (linked : c.stack.Linked) (first : inv c.traffic) (keeps : ∀ past t t', Change past t t' → inv t → inv t')
    (lost : ∀ t, inv t → inv t.bereft) : (c.run moves).stack.Linked ∧ inv (c.run moves).traffic := by
  induction moves generalizing c with
  | nil => exact ⟨linked, first⟩
  | cons m rest ih =>
      obtain ⟨linked', change⟩ := move_follows m c (lawful m (by simp)) linked
      refine ih (c.move m) (fun m' member => lawful m' (by simp [member])) linked' ?_
      rcases change with follows | ⟨-, bereft⟩
      · exact follows_invariant _ _ _ inv follows first (keeps _)
      · rw [bereft]
        exact lost _ first

end Scene

end HubRelay
