import HubRelay.Proofs.Link.Provenance
import HubRelay.Proofs.Relay.Vigils
import HubRelay.Proofs.Relay.Records
import HubRelay.Proofs.Relay.Guises
import Mathlib.Data.List.Induction

/-! What the link is offered: each message as it was sent, marked with the host's power at that time. Whatever the
link delivers was accepted before. -/

set_option autoImplicit false

namespace HubRelay

def Reply.accepts : Reply → Bool
  | .sent _ => true
  | .flag value => value
  | _ => false

namespace Stack

def accepts (d : Dispatch Action) (s : Stack) : Option Badge :=
  if (s.send d).1.accepts then s.names.lookup d.sender else none

end Stack

namespace Link

def held : Link → List Outgoing
  | .uplink u => u.queue.toList
  | .puppet p => p.kept

def keeping (m : Outgoing) : Link → List Outgoing
  | .uplink _ => [m]
  | .puppet p => if p.reaction.keeps then [m] else []

end Link

namespace Stack

theorem watch_offer (m : Outgoing) (s : Stack) :
    (s.offer m).2.watch = s.watch ∧ ((s.offer m).2.hub.relay.isSome ↔ s.hub.relay.isSome) ∧
      ((s.offer m).1 = true → (s.offer m).2.link.held = s.link.held ++ s.link.keeping m) := by
  have completed : ∀ (handles : List Handle) (h : Hub),
      (handles.foldl (fun h k => h.complete k) h).vigil = h.vigil := by
    intro handles
    induction handles with
    | nil => exact fun h => rfl
    | cons k rest ih => exact fun h => (ih (h.complete k)).trans (Hub.vigil_complete k h)
  have living : ∀ g h : Hub, g.vigil = h.vigil → (g.relay.isSome ↔ h.relay.isSome) := by
    intro g h same
    have claim := congrArg (fun v => v.claim.isSome) same
    simp only [Hub.vigil, Option.isSome_map] at claim
    rw [claim]
  unfold offer
  split
  · next u link =>
      refine ⟨rfl, .rfl, fun taken => ?_⟩
      simp only [Uplink.send] at taken ⊢
      split at taken
      · cases taken
      · next room =>
          rw [if_neg room, link]
          simp [setUplink, Link.held, Link.keeping]
  · next p link =>
      have same := completed (p.completions m) s.hub
      simp only
      split
      · next keeps =>
          refine ⟨Prod.ext same rfl, living _ _ same, fun _ => ?_⟩
          simp [setPuppet, link, Link.held, Link.keeping, keeps, Puppet.keep]
      · next keeps =>
          refine ⟨Prod.ext same rfl, living _ _ same, fun _ => ?_⟩
          simp [onHub, link, Link.held, Link.keeping, keeps]

end Stack

def Link.Only (P : Outgoing → Prop) : Link → Prop
  | .uplink u => u.Only P
  | .puppet _ => True

namespace Stack

theorem offer_only (P : Outgoing → Prop) (m : Outgoing) (s : Stack) (only : s.link.Only P)
    (own : (s.offer m).1 = true → P m) : (s.offer m).2.link.Only P := by
  unfold offer at own ⊢
  split at own
  · next u link =>
      rw [link] at only
      exact Uplink.send_only P m u only own
  · next p link =>
      simp only
      split
      · trivial
      · simp only [onHub, link]
        trivial

theorem credit_link (badge : Badge) (woke : Bool) (s : Stack) :
    (s.credit badge woke).link = s.link ∧ (s.credit badge woke).power = s.power := by
  unfold credit
  split <;> exact ⟨rfl, rfl⟩

theorem watch_reject (failure : SendFailure) (payload : Payload) (s : Stack) :
    (s.reject failure payload).2.watch = s.watch :=
  Prod.ext (Hub.vigil_count s.hub _) rfl

theorem sendAs_outcome (badge : Badge) (d : Dispatch Action) (r : Relay) (s : Stack) (relay : s.hub.relay = some r) :
    (∃ failure payload after, s.sendAs badge d r = (.rejected failure payload, after) ∧ after.watch = s.watch ∧
        ∀ P, s.link.Only P → after.link.Only P) ∨
      ∃ k pool after, (s.onHub (·.lent pool r)).offer ⟨k, d.message badge (!s.power.awake)⟩ = (true, after) ∧
        s.sendAs badge d r = (.sent k, after.credit badge (!s.power.awake)) := by
  have refused : ∀ failure, ∃ after, (s.onHub (·.noteDropped d.free)).reject failure d.payload =
      (.rejected failure d.payload, after) ∧ after.watch = s.watch ∧ ∀ P, s.link.Only P → after.link.Only P := by
    intro failure
    have dropped : (s.onHub (·.noteDropped d.free)).watch = s.watch := Prod.ext (Hub.vigil_noteDropped s.hub d.free) rfl
    exact ⟨_, rfl, (watch_reject failure d.payload _).trans dropped, fun P only => only⟩
  simp only [sendAs]
  split
  · exact .inl ⟨_, _, refused _⟩
  · split
    · exact .inl ⟨_, _, refused _⟩
    · split
      · exact .inl ⟨_, _, refused _⟩
      · next k pool allocated =>
          have lent : (s.onHub (·.lent pool r)).watch = s.watch := Prod.ext (Hub.vigil_lent s.hub pool r relay) rfl
          have offered := watch_offer ⟨k, d.message badge (!s.power.awake)⟩ (s.onHub (·.lent pool r))
          have only := fun P => offer_only P ⟨k, d.message badge (!s.power.awake)⟩ (s.onHub (·.lent pool r))
          split
          · next after taken => exact .inr ⟨k, pool, after, taken, rfl⟩
          · next after taken =>
              have answer : (s.onHub (·.lent pool r)).offer ⟨k, d.message badge (!s.power.awake)⟩ = (false, after) := taken
              rw [answer] at offered only
              have returned : (after.withdraw k).2.watch = after.watch := by
                rw [withdraw_cases]
                exact Prod.ext (Hub.vigil_reclaim after.hub k) rfl
              have link : (after.withdraw k).2.link = after.link := by
                rw [withdraw_cases]
                rfl
              refine .inl ⟨_, _, _, rfl, ?_, fun P known => ?_⟩
              · exact (watch_reject .refused (after.withdraw k).1 _).trans (returned.trans (offered.1.trans lent))
              · change Link.Only P (after.withdraw k).2.link
                rw [link]
                exact only P known (by simp)

theorem send_named (badge : Badge) (d : Dispatch Action) (r : Relay) (s : Stack) (relay : s.hub.relay = some r)
    (named : s.names.lookup d.sender = some badge) :
    (s.send d).1.accepts = (s.sendAs badge d r).1.accepts ∧ (s.send d).2.watch = (s.sendAs badge d r).2.watch ∧
      (s.send d).2.link = (s.sendAs badge d r).2.link ∧
      (s.send d).2.hub.history = .offered r.serial badge d (s.sendAs badge d r).1 :: (s.sendAs badge d r).2.hub.history := by
  have passed : ∀ answer, ((s.sendAs badge d r).2.onHub fun h => (h.record (.offered r.serial badge d answer)).passSerial).watch =
      (s.sendAs badge d r).2.watch :=
    fun answer => Prod.ext (Hub.vigil_passSerial _) rfl
  unfold send
  simp only [relay, named]
  rcases sendAs_answer badge d r s with ⟨k, sent⟩ | ⟨failure, payload, rejected⟩
  · simp only [sent]
    cases d.brief with
    | true => exact ⟨rfl, passed _, rfl, rfl⟩
    | false => cases d.label <;> exact ⟨rfl, passed _, rfl, rfl⟩
  · simp only [rejected]
    cases d.brief <;> exact ⟨rfl, passed _, rfl, rfl⟩

/-- A message is accepted or it leaves no mark. -/
theorem send_outcome (d : Dispatch Action) (s : Stack) :
    (s.accepts d = none ∧ (s.send d).2.watch = s.watch ∧ ∀ P, s.link.Only P → (s.send d).2.link.Only P) ∨
      ∃ badge r k pool after, s.accepts d = some badge ∧ s.hub.relay = some r ∧
        (s.onHub (·.lent pool r)).offer ⟨k, d.message badge (!s.power.awake)⟩ = (true, after) ∧
        (s.send d).2.watch = (after.credit badge (!s.power.awake)).watch ∧ (s.send d).2.link = after.link ∧
        (s.send d).2.hub.history.head? = some (.offered r.serial badge d (.sent k)) := by
  have idle : s.send d = (.fault .noRelay, s) ∨ s.send d = (.fault .malformed, s) →
      s.accepts d = none ∧ (s.send d).2.watch = s.watch ∧ ∀ P, s.link.Only P → (s.send d).2.link.Only P := by
    rintro (same | same) <;>
      · unfold accepts
        rw [same]
        exact ⟨rfl, rfl, fun P only => only⟩
  cases relay : s.hub.relay with
  | none =>
      refine .inl (idle (.inl ?_))
      rw [send, relay]
  | some r =>
      cases named : s.names.lookup d.sender with
      | none =>
          refine .inl (idle (.inr ?_))
          rw [send, relay]
          simp only [named]
      | some badge =>
          obtain ⟨answer, watch, link, history⟩ := send_named badge d r s relay named
          rw [link, watch, accepts, answer, named, history]
          rcases sendAs_outcome badge d r s relay with
            ⟨failure, payload, after, refused, same, only⟩ | ⟨k, pool, after, taken, sent⟩
          · rw [refused]
            exact .inl ⟨rfl, same, only⟩
          · rw [sent]
            exact .inr ⟨badge, r, k, pool, after, rfl, rfl, taken, rfl, (credit_link badge _ after).1, rfl⟩

theorem only_haul (P : Outgoing → Prop) (s : Stack) (only : s.link.Only P) : s.haul.link.Only P := by
  unfold haul
  split
  · next u link =>
      rw [link] at only
      exact Uplink.haul_only P Hub.complete u s.hub only
  · exact only

theorem only_flush (P : Outgoing → Prop) (s : Stack) (only : s.link.Only P) : s.flush.2.link.Only P := by
  unfold flush
  split
  · next u link =>
      rw [link] at only
      exact Uplink.haul_only P Hub.complete u s.hub only
  · exact only

theorem only_shutdown (P : Outgoing → Prop) (s : Stack) (only : s.link.Only P) : s.shutdown.link.Only P := by
  unfold shutdown
  split
  · next u link =>
      rw [link] at only
      exact Uplink.shutdown_only P Hub.complete u s.hub only
  · trivial

theorem only_uplink (P : Outgoing → Prop) (c : UplinkCall) (u : Uplink) (s : Stack) (link : s.link = .uplink u)
    (only : u.Only P) : (s.onUplink c u).2.link.Only P := by
  cases c with
  | start =>
      simp only [onUplink]
      split
      · next u' started => exact Uplink.start_only P u u' only started
      · rw [link]
        exact only
  | pump limit => exact Uplink.pump_only P Hub.complete limit u s.hub only
  | pause | resume | spoil => exact only
  | takeReceived => exact ⟨only.1, fun x member => by cases member⟩

theorem link_enqueue (s next : Stack) (i : Nat) (t : Task) (queued : s.enqueue i t = .ok next) : next.link = s.link := by
  unfold enqueue at queued
  split at queued
  · cases queued
    rfl
  · cases queued

theorem only_ifLoop (P : Outgoing → Prop) (i : Nat) (f : RunLoop → Reply × Stack) (s : Stack) (only : s.link.Only P)
    (each : ∀ l, (f l).2.link.Only P) : (s.ifLoop i f).2.link.Only P :=
  s.ifLoop_keeps (·.link.Only P) i f only fun l _ => each l

theorem only_ifRelay (P : Outgoing → Prop) (f : Stack → Reply × Stack) (s : Stack) (only : s.link.Only P)
    (each : (f s).2.link.Only P) : (s.ifRelay f).2.link.Only P :=
  s.ifRelay_keeps (·.link.Only P) f only each

theorem only_act (P : Outgoing → Prop) (a : Action) (s : Stack) (only : s.link.Only P)
    (own : ∀ d badge k, a = .send d → s.accepts d = some badge →
      (∃ n, .offered n badge d (.sent k) ∈ (s.act a).2.hub.history) → P ⟨k, d.message badge (!s.power.awake)⟩) :
    (s.act a).2.link.Only P := by
  have queued : ∀ (i : Nat) (t : Task) (next : Stack), s.enqueue i t = .ok next → next.link.Only P := by
    intro i t next taken
    rw [link_enqueue s next i t taken]
    exact only
  cases a with
  | load | loadMany | find | stop => exact only_ifLoop P _ _ s only fun _ => only
  | unload i app =>
      refine only_ifLoop P i _ s only fun _ => ?_
      split
      · next next taken => exact queued i _ next taken
      · exact only
  | grab i app name =>
      refine only_ifLoop P i _ s only fun _ => ?_
      split <;> exact only
  | enrol | wake => exact only
  | post i event =>
      refine only_ifLoop P i _ s only fun _ => ?_
      split
      · next next taken => exact queued i _ next taken
      · exact only
  | defer i label script =>
      refine only_ifLoop P i _ s only fun _ => ?_
      split
      · next next taken => exact queued i _ next taken
      · exact only
  | send d =>
      change (s.send d).2.link.Only P
      rcases send_outcome d s with ⟨-, -, kept⟩ | ⟨badge, r, k, pool, after, accepted, -, taken, -, link, told⟩
      · exact kept P only
      · have offered := offer_only P ⟨k, d.message badge (!s.power.awake)⟩ (s.onHub (·.lent pool r)) only
          fun _ => own d badge k rfl accepted ⟨r.serial, List.mem_of_mem_head? told⟩
        rw [taken] at offered
        rw [link]
        exact offered
  | complete r | retry r =>
      refine only_ifRelay P _ s only ?_
      split <;> exact only
  | deliver arrival viaLink =>
      simp only [act]
      split <;> exact only
  | resetClaim => exact only_ifRelay P _ s only only
  | shutdown => exact only_ifRelay P _ s only (only_shutdown P s only)
  | flush => exact only_ifRelay P _ s only (only_flush P s only)
  | suspend =>
      simp only [act]
      split <;> exact only
  | uplink call =>
      simp only [act]
      split
      · next u link =>
          rw [link] at only
          exact only_uplink P call u s link only
      · exact only
  | puppet call =>
      simp only [act]
      split
      · exact only
      · next p link =>
          cases call with
          | held => exact only
          | react | clear | setFlush => trivial
  | malformed toRelay =>
      simp only [act]
      split
      · exact only_ifRelay P _ s only only
      · exact only

end Stack

namespace Scene

theorem only_move (P : Outgoing → Prop) (m : Move) (c : Scene) (only : c.stack.link.Only P)
    (own : ∀ d badge k, m = .act (.send d) → c.stack.accepts d = some badge →
      (∃ n, .offered n badge d (.sent k) ∈ (c.move m).stack.hub.history) → P ⟨k, d.message badge (!c.stack.power.awake)⟩) :
    (c.move m).stack.link.Only P := by
  cases m with
  | act a => exact Stack.only_act P a c.stack only fun d badge k same => own d badge k (congrArg Move.act same)
  | haul => exact Stack.only_haul P c.stack only
  | take i =>
      cases taken : c.stack.next? i with
      | none =>
          simp only [move, take, taken]
          exact only
      | some found =>
          simp only [move, take, taken]
          rw [Stack.link_startTask, (Stack.next_outlook c.stack found.2 i found.1 taken).2.1]
          exact only
  | finish place =>
      simp only [move, finish]
      split
      · exact only
      · rw [Stack.link_finishTask]
        exact only
  | quit i place =>
      change ((c.stack.quit i place).2).link.Only P
      rw [Stack.link_quit]
      exact only
  | drop i =>
      simp only [move]
      split
      · change (c.stack.dropTask i).link.Only P
        rw [Stack.link_dropTask]
        exact only
      · exact only
  | detach i =>
      simp only [move]
      split <;> exact only
  | turn | note | tell | occupy | shut | clearRoster | dropRelay => exact only

def Accepted (moves : List Move) (c : Scene) (m : Outgoing) : Prop :=
  ∃ before d later badge, moves = before ++ .act (.send d) :: later ∧ (c.run before).stack.accepts d = some badge ∧
    m.message = d.message badge (!(c.run before).stack.power.awake)

theorem Accepted.append {moves : List Move} {c : Scene} {m : Outgoing} (accepted : c.Accepted moves m) (more : List Move) :
    c.Accepted (moves ++ more) m := by
  obtain ⟨before, d, later, badge, split, rest⟩ := accepted
  refine ⟨before, d, later ++ more, badge, ?_, rest⟩
  rw [split, List.append_assoc, List.cons_append]

theorem run_only (moves : List Move) (c : Scene) (fresh : c.stack.link.Only fun _ => False) :
    (c.run moves).stack.link.Only (c.Accepted moves) := by
  induction moves using List.reverseRecOn with
  | nil =>
      change c.stack.link.Only _
      cases link : c.stack.link with
      | uplink u =>
          rw [link] at fresh
          exact Uplink.Only.mono fresh fun m held => held.elim
      | puppet p => trivial
  | append_singleton moves m ih =>
      rw [run_append]
      refine only_move _ m (c.run moves) ?_ ?_
      · cases link : (c.run moves).stack.link with
        | uplink u =>
            rw [link] at ih
            exact Uplink.Only.mono ih fun x accepted => accepted.append [m]
        | puppet p => trivial
      · rintro d badge k rfl accepted -
        exact ⟨moves, d, [], badge, rfl, accepted, rfl⟩

end Scene

end HubRelay
