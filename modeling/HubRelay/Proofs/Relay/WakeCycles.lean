import HubRelay.Proofs.Relay.Offers
import HubRelay.Proofs.Loop.Closing

/-! Who woke the host: in each cycle the nanoapp whose message was the first to be accepted while the host slept. -/

set_option autoImplicit false

namespace HubRelay

inductive WakeMark where
  | accepted (entry : Nat) (asleep : Bool)
  | reset
deriving DecidableEq

namespace WakeMark

def isReset : WakeMark → Bool
  | .reset => true
  | .accepted _ _ => false

def sleeper? : WakeMark → Option Nat
  | .accepted entry true => some entry
  | _ => none

-- Who answers for a cycle: the first whose message was accepted while the host slept.
def waker? (cycle : List WakeMark) : Option Nat := cycle.findSome? sleeper?

@[simp] theorem waker_none : waker? [] = none := rfl

@[simp] theorem waker_asleep (entry : Nat) (rest : List WakeMark) : waker? (.accepted entry true :: rest) = some entry := rfl

@[simp] theorem waker_awake (entry : Nat) (rest : List WakeMark) :
    waker? (.accepted entry false :: rest) = waker? rest := rfl

def cycles (marks : List WakeMark) : List (List WakeMark) := marks.splitOnP isReset

def Claimed (marks : List WakeMark) : Prop :=
  ∃ before later entry, marks = before ++ .accepted entry true :: later ∧ .reset ∉ later

theorem claimed_cons (x : WakeMark) (rest : List WakeMark) :
    Claimed (x :: rest) ↔ (∃ entry, x = .accepted entry true) ∧ .reset ∉ rest ∨ Claimed rest := by
  constructor
  · rintro ⟨before, later, entry, split, quiet⟩
    cases before with
    | nil =>
        cases split
        exact .inl ⟨⟨entry, rfl⟩, quiet⟩
    | cons y before =>
        cases split
        exact .inr ⟨before, later, entry, rfl, quiet⟩
  · rintro (⟨⟨entry, rfl⟩, quiet⟩ | ⟨before, later, entry, rfl, quiet⟩)
    · exact ⟨[], rest, entry, rfl, quiet⟩
    · exact ⟨x :: before, later, entry, rfl, quiet⟩

theorem cycles_reset (rest : List WakeMark) : cycles (.reset :: rest) = [] :: cycles rest := by
  rw [cycles, List.splitOnP_cons_eq_if_modifyHead]
  rfl

theorem cycles_accepted (entry : Nat) (asleep : Bool) (rest : List WakeMark) :
    ∃ first others, cycles rest = first :: others ∧
      cycles (.accepted entry asleep :: rest) = (.accepted entry asleep :: first) :: others := by
  obtain ⟨first, others, split⟩ := List.exists_cons_of_ne_nil (List.splitOnP_ne_nil isReset rest)
  refine ⟨first, others, split, ?_⟩
  rw [cycles, List.splitOnP_cons_eq_if_modifyHead, split]
  rfl

end WakeMark

namespace Stack

def wakeMarks (a : Action) (s : Stack) : List WakeMark :=
  match a with
  | .send d => (s.accepts d).toList.map fun badge => .accepted badge.entry (!s.power.awake)
  | .resetClaim => [.reset]
  -- Only the step from awake to asleep ends a cycle.
  | .suspend => if s.power.awake then [.reset] else []
  | _ => []

end Stack

namespace Scene

def wakeMark (m : Move) (c : Scene) : List WakeMark :=
  match m with
  | .act a => c.stack.wakeMarks a
  | _ => []

def wakeMarks : List Move → Scene → List WakeMark
  | [], _ => []
  | m :: rest, c => c.wakeMark m ++ wakeMarks rest (c.move m)

end Scene

structure WakeCount where
  taken : Bool
  wakeups : Nat → Nat

namespace WakeCount

open WakeMark

def mark (g : WakeCount) (x : WakeMark) : WakeCount :=
  match x with
  | .reset => { g with taken := false }
  | .accepted entry asleep =>
      if asleep && !g.taken then ⟨true, fun e => if e = entry then g.wakeups e + 1 else g.wakeups e⟩ else g

def after (g : WakeCount) (marks : List WakeMark) : WakeCount := marks.foldl mark g

theorem after_append (g : WakeCount) (marks more : List WakeMark) :
    g.after (marks ++ more) = (g.after marks).after more := List.foldl_append

theorem after_taken (marks : List WakeMark) (g : WakeCount) :
    (g.after marks).taken = true ↔ (g.taken = true ∧ .reset ∉ marks) ∨ Claimed marks := by
  induction marks generalizing g with
  | nil =>
      have unclaimed : ¬Claimed [] := by
        rintro ⟨before, later, entry, split, -⟩
        simp at split
      simp [after, unclaimed]
  | cons x rest ih =>
      rw [show g.after (x :: rest) = (g.mark x).after rest from rfl, ih, claimed_cons]
      cases x with
      | reset => simp [mark]
      | accepted entry asleep => cases asleep <;> cases taken : g.taken <;> simp [mark, taken]

theorem after_wakeups (marks : List WakeMark) (g : WakeCount) (entry : Nat) :
    (g.after marks).wakeups entry = g.wakeups entry +
      ((if g.taken then (cycles marks).tail else cycles marks).map waker?).count (some entry) := by
  induction marks generalizing g with
  | nil => cases g.taken <;> simp [after, cycles]
  | cons x rest ih =>
      rw [show g.after (x :: rest) = (g.mark x).after rest from rfl, ih]
      cases x with
      | reset => cases taken : g.taken <;> simp [mark, cycles_reset]
      | accepted e asleep =>
          obtain ⟨first, others, split, joined⟩ := cycles_accepted e asleep rest
          rw [split, joined]
          cases taken : g.taken with
          | true => simp [mark, taken]
          | false =>
              cases asleep with
              | false => simp [mark, taken]
              | true =>
                  by_cases own : entry = e
                  · subst own
                    simp [mark, taken]
                    omega
                  · simp [mark, taken, own, Ne.symm own]

end WakeCount

theorem Ledger.lookup_update (entry e : Nat) (f : Usage → Usage) (rows : List (Nat × Usage)) :
    ((updateRow entry f rows).lookup e).getD {} =
      if e = entry then f ((rows.lookup e).getD {}) else (rows.lookup e).getD {} := by
  induction rows with
  | nil =>
      by_cases own : e = entry
      · simp [updateRow, own]
      · simp [updateRow, own, List.lookup_cons, beq_false_of_ne own]
  | cons row rest ih =>
      obtain ⟨e', u⟩ := row
      by_cases here : e' = entry
      · subst here
        by_cases own : e = e'
        · simp [updateRow, own]
        · simp [updateRow, own, List.lookup_cons, beq_false_of_ne own]
      · by_cases own : e = e'
        · subst own
          simp [updateRow, here, beq_false_of_ne here]
        · simp [updateRow, beq_false_of_ne here, List.lookup_cons, beq_false_of_ne own, ih]

namespace Vigil

def wakeups (v : Vigil) (entry : Nat) : Nat := ((v.rows.lookup entry).getD {}).wakeups

structure Shows (v : Vigil) (g : WakeCount) : Prop where
  claim : ∀ claim, v.claim = some claim → claim.taken = g.taken
  wakeups : ∀ entry, v.wakeups entry = g.wakeups entry

end Vigil

namespace Stack

theorem credit_shows (badge : Badge) (woke : Bool) (s : Stack) (g : WakeCount) (alive : s.hub.relay.isSome)
    (shows : s.hub.vigil.Shows g) : (s.credit badge woke).hub.vigil.Shows (g.mark (.accepted badge.entry woke)) := by
  obtain ⟨r, relay⟩ := Option.isSome_iff_exists.mp alive
  have claim : r.wakeClaim.taken = g.taken := shows.claim r.wakeClaim (by rw [Hub.vigil, relay]; rfl)
  have sent : ∀ e, ((Ledger.updateRow badge.entry Usage.countSent s.hub.ledger.rows).lookup e |>.getD {}).wakeups =
      g.wakeups e := by
    intro e
    rw [Ledger.lookup_update]
    split <;> exact shows.wakeups e
  unfold credit
  rw [relay]
  cases woke with
  | false =>
      refine ⟨fun other same => ?_, sent⟩
      cases same
      exact claim
  | true =>
      cases taken : g.taken with
      | true =>
          rw [taken] at claim
          have unclaimed : r.wakeClaim.claim.1 = false := by simp [WakeClaim.claim, claim]
          have kept : g.mark (.accepted badge.entry true) = g := by simp [WakeCount.mark, taken]
          rw [kept]
          simp only [if_true, unclaimed]
          refine ⟨fun other same => ?_, sent⟩
          cases same
          exact taken.symm
      | false =>
          rw [taken] at claim
          have claimed : r.wakeClaim.claim.1 = true := by simp [WakeClaim.claim, claim]
          simp only [if_true, claimed]
          refine ⟨fun other same => ?_, fun e => ?_⟩
          · cases same
            simp [WakeCount.mark, WakeClaim.claim, taken]
          · simp only [onHub, Hub.vigil, Vigil.wakeups, Ledger.update, WakeCount.mark, taken, Bool.not_false,
              Bool.and_self, if_true]
            rw [Ledger.lookup_update]
            split
            · exact congrArg (· + 1) (sent e)
            · exact sent e

theorem credit_awake (badge : Badge) (s : Stack) :
    (s.credit badge false).hub.vigil.claim = s.hub.vigil.claim ∧
      ∀ entry, (s.credit badge false).hub.vigil.wakeups entry = s.hub.vigil.wakeups entry := by
  unfold credit
  cases relay : s.hub.relay with
  | none => exact ⟨rfl, fun _ => rfl⟩
  | some r =>
      refine ⟨by simp only [Hub.vigil, relay]; rfl, fun entry => ?_⟩
      simp only [onHub, Hub.vigil, Vigil.wakeups, Ledger.update, Bool.false_eq_true, if_false]
      rw [Ledger.lookup_update]
      split <;> rfl

theorem endCycle_shows (s : Stack) (g : WakeCount) (shows : s.hub.vigil.Shows g) :
    s.endCycle.hub.vigil.Shows (g.mark .reset) := by
  refine ⟨fun claim same => ?_, shows.wakeups⟩
  simp only [endCycle, onHub, Hub.onRelay, Hub.vigil, Option.map_map] at same
  obtain ⟨r, -, rfl⟩ := Option.map_eq_some_iff.mp same
  rfl

theorem send_shows (d : Dispatch Action) (s : Stack) (g : WakeCount) (shows : s.hub.vigil.Shows g) :
    (s.send d).2.hub.vigil.Shows (g.after (s.wakeMarks (.send d))) ∧ (s.send d).2.power = s.power := by
  rcases send_outcome d s with ⟨refused, same, -⟩ | ⟨badge, r, k, pool, after, accepted, relay, taken, same, -, -⟩
  · have marks : s.wakeMarks (.send d) = [] := by simp only [wakeMarks, refused]; rfl
    rw [marks]
    have vigil : (s.send d).2.hub.vigil = s.hub.vigil := congrArg Prod.fst same
    rw [vigil]
    exact ⟨shows, congrArg Prod.snd same⟩
  · have marks : s.wakeMarks (.send d) = [.accepted badge.entry (!s.power.awake)] := by
      simp only [wakeMarks, accepted]
      rfl
    have vigil : (s.send d).2.hub.vigil = (after.credit badge (!s.power.awake)).hub.vigil := congrArg Prod.fst same
    obtain ⟨watch, living, -⟩ := watch_offer ⟨k, d.message badge (!s.power.awake)⟩ (s.onHub (·.lent pool r))
    rw [taken] at watch living
    have offered : after.hub.vigil = s.hub.vigil := (congrArg Prod.fst watch).trans (Hub.vigil_lent s.hub pool r relay)
    rw [marks, vigil]
    refine ⟨credit_shows badge _ after g (living.mpr rfl) (by rw [offered]; exact shows), ?_⟩
    have power : after.power = s.power := congrArg Prod.snd watch
    exact (congrArg Prod.snd same).trans ((credit_link badge _ after).2.trans power)

theorem send_quiet (d : Dispatch Action) (s : Stack) (quiet : s.accepts d = none ∨ s.power.awake = true) :
    (s.send d).2.hub.vigil.claim = s.hub.vigil.claim ∧
      ∀ entry, (s.send d).2.hub.vigil.wakeups entry = s.hub.vigil.wakeups entry := by
  rcases send_outcome d s with ⟨-, same, -⟩ | ⟨badge, r, k, pool, after, accepted, relay, taken, same, -, -⟩
  · have vigil : (s.send d).2.hub.vigil = s.hub.vigil := congrArg Prod.fst same
    rw [vigil]
    exact ⟨rfl, fun _ => rfl⟩
  · have awake : s.power.awake = true := quiet.resolve_left (by rw [accepted]; simp)
    obtain ⟨watch, -, -⟩ := watch_offer ⟨k, d.message badge (!s.power.awake)⟩ (s.onHub (·.lent pool r))
    rw [taken] at watch
    have offered : after.hub.vigil = s.hub.vigil := (congrArg Prod.fst watch).trans (Hub.vigil_lent s.hub pool r relay)
    rw [awake] at same
    have vigil : (s.send d).2.hub.vigil = (after.credit badge false).hub.vigil := congrArg Prod.fst same
    have credited := credit_awake badge after
    rw [offered] at credited
    rw [vigil]
    exact credited

theorem send_held (d : Dispatch Action) (badge : Badge) (s : Stack) (accepted : s.accepts d = some badge) :
    ∃ n k, (s.send d).2.hub.history.head? = some (.offered n badge d (.sent k)) ∧
      (s.send d).2.link.held = s.link.held ++ s.link.keeping ⟨k, d.message badge (!s.power.awake)⟩ := by
  rcases send_outcome d s with ⟨refused, -⟩ | ⟨badge', r, k, pool, after, accepted', -, taken, -, link, recorded⟩
  · rw [refused] at accepted
    cases accepted
  · rw [accepted'] at accepted
    cases accepted
    obtain ⟨-, -, held⟩ := watch_offer ⟨k, d.message badge (!s.power.awake)⟩ (s.onHub (·.lent pool r))
    rw [taken] at held
    refine ⟨r.serial, k, recorded, ?_⟩
    rw [link]
    exact held rfl

theorem act_shows (a : Action) (s : Stack) (g : WakeCount) (shows : s.hub.vigil.Shows g) (bound : s.power.listener = some ()) :
    (s.act a).2.hub.vigil.Shows (g.after (s.wakeMarks a)) ∧ (s.act a).2.power.listener = some () := by
  have aside : a.IsAsideWake → s.wakeMarks a = [] →
      (s.act a).2.hub.vigil.Shows (g.after (s.wakeMarks a)) ∧ (s.act a).2.power.listener = some () := by
    intro quiet none
    have same := watch_act a s quiet
    have vigil : (s.act a).2.hub.vigil = s.hub.vigil := congrArg Prod.fst same
    have power : (s.act a).2.power = s.power := congrArg Prod.snd same
    rw [none, vigil, power]
    exact ⟨shows, bound⟩
  cases a with
  | send d =>
      obtain ⟨counted, power⟩ := send_shows d s g shows
      refine ⟨counted, ?_⟩
      change (s.send d).2.power.listener = some ()
      rw [power, bound]
  | resetClaim =>
      simp only [act, ifRelay]
      split
      · next gone =>
          refine ⟨⟨fun claim same => ?_, shows.wakeups⟩, bound⟩
          rw [Option.isNone_iff_eq_none] at gone
          simp [Hub.vigil, gone] at same
      · exact ⟨endCycle_shows s g shows, bound⟩
  | suspend =>
      simp only [act, HostPower.suspend, wakeMarks]
      by_cases awake : s.power.awake = true
      · simp only [awake, if_true, bound, Option.isSome_some]
        exact ⟨endCycle_shows { s with power := { awake := false, listener := some () } } g shows, rfl⟩
      · simp only [awake]
        exact ⟨shows, bound⟩
  | wake => exact ⟨shows, bound⟩
  | _ => exact aside trivial rfl

end Stack

namespace Scene

theorem move_shows (m : Move) (c : Scene) (g : WakeCount) (shows : c.stack.hub.vigil.Shows g)
    (bound : c.stack.power.listener = some ()) :
    (c.move m).stack.hub.vigil.Shows (g.after (c.wakeMark m)) ∧ (c.move m).stack.power.listener = some () := by
  have aside : (∀ a, m ≠ .act a) → m ≠ .dropRelay →
      (c.move m).stack.hub.vigil.Shows g ∧ (c.move m).stack.power.listener = some () := by
    intro quiet kept
    have same := watch_move m c (fun a act => absurd act (quiet a)) kept
    have vigil : (c.move m).stack.hub.vigil = c.stack.hub.vigil := congrArg Prod.fst same
    have power : (c.move m).stack.power = c.stack.power := congrArg Prod.snd same
    rw [vigil, power]
    exact ⟨shows, bound⟩
  cases m with
  | act a => exact Stack.act_shows a c.stack g shows bound
  | dropRelay =>
      obtain ⟨gone, ledger⟩ := dropRelay_vigil c.stack.hub
      refine ⟨⟨fun claim same => ?_, fun entry => ?_⟩, bound⟩
      · simp [move, onStack, Stack.onHub, Hub.vigil, gone] at same
      · simp only [move, onStack, Stack.onHub, Hub.vigil, Vigil.wakeups, ledger]
        exact shows.wakeups entry
  | _ => exact aside (by simp) (by simp)

theorem run_shows (moves : List Move) (c : Scene) (g : WakeCount) (shows : c.stack.hub.vigil.Shows g)
    (bound : c.stack.power.listener = some ()) :
    (c.run moves).stack.hub.vigil.Shows (g.after (c.wakeMarks moves)) := by
  induction moves generalizing c g with
  | nil => exact shows
  | cons m rest ih =>
      obtain ⟨counted, listening⟩ := move_shows m c g shows bound
      rw [wakeMarks, WakeCount.after_append]
      exact ih (c.move m) _ counted listening

end Scene

theorem Blueprint.build_vigil (b : Blueprint) (s : Stack) (built : b.build = .ok s) : s.hub.vigil = ⟨some {}, []⟩ := by
  unfold build at built
  split at built
  · cases built
  · cases built
  · split at built
    · cases built
    · split at built
      · cases built
      · cases built
        rfl

namespace Scene

/-- Whoever sends, whatever the host's power does and whoever resets the claim: the claim stands exactly while a
message was accepted from a sleeping host in the current cycle, each nanoapp answers for the cycles that it opened,
and whatever goes to the host tells whether the host slept when it was sent. -/
theorem wake_cycles (c : Scene) (moves : List Move) (starts : c.Starts) (bound : c.stack.power.listener = some ()) :
    (∀ r, (c.run moves).stack.hub.relay = some r →
      (r.wakeClaim.taken = true ↔ WakeMark.Claimed (c.wakeMarks moves))) ∧
    (∀ entry, ((c.run moves).stack.hub.ledger.usage entry).wakeups =
      ((WakeMark.cycles (c.wakeMarks moves)).map WakeMark.waker?).count (some entry)) ∧
    (∀ d, (c.run moves).stack.accepts d = none ∨ (c.run moves).stack.power.awake = true →
      ((c.run moves).stack.send d).2.hub.relay.map (·.wakeClaim) = (c.run moves).stack.hub.relay.map (·.wakeClaim) ∧
        ∀ entry, (((c.run moves).stack.send d).2.hub.ledger.usage entry).wakeups =
          ((c.run moves).stack.hub.ledger.usage entry).wakeups) ∧
    (∀ d badge, (c.run moves).stack.accepts d = some badge →
      ∃ n k, ((c.run moves).stack.send d).2.hub.history.head? = some (.offered n badge d (.sent k)) ∧
        ((c.run moves).stack.send d).2.link.held = (c.run moves).stack.link.held ++
          (c.run moves).stack.link.keeping ⟨k, d.message badge (!(c.run moves).stack.power.awake)⟩) ∧
    ∀ settings u, c.stack.link = .uplink { settings := settings } → (c.run moves).stack.link = .uplink u →
      (∀ m ∈ u.queue.toList, c.Accepted moves m) ∧
        ∀ x ∈ u.received, ∃ before d later badge, moves = before ++ .act (.send d) :: later ∧
          (c.run before).stack.accepts d = some badge ∧
          x = ⟨x.handle, badge.app, d.kind, d.endpoint, !(c.run before).stack.power.awake, d.payload⟩ := by
  obtain ⟨⟨b, built⟩, -⟩ := starts
  have first : c.stack.hub.vigil.Shows ⟨false, fun _ => 0⟩ := by
    rw [b.build_vigil c.stack built]
    refine ⟨fun claim same => ?_, fun entry => rfl⟩
    cases same
    rfl
  have shown := run_shows moves c _ first bound
  refine ⟨fun r relay => ?_, fun entry => ?_, fun d quiet => ?_, fun d badge accepted => ?_, ?_⟩
  · have claim := shown.claim r.wakeClaim (by rw [Hub.vigil, relay]; rfl)
    rw [claim, WakeCount.after_taken]
    simp
  · have counted := shown.wakeups entry
    rw [WakeCount.after_wakeups] at counted
    exact counted.trans (Nat.zero_add _)
  · obtain ⟨claim, wakeups⟩ := Stack.send_quiet d (c.run moves).stack quiet
    exact ⟨claim, wakeups⟩
  · exact Stack.send_held d badge (c.run moves).stack accepted
  · intro settings u fresh link
    have empty : c.stack.link.Only fun _ => False := by
      rw [fresh]
      constructor
      · intro m member
        cases member
      · intro x member
        cases member
    have only := run_only moves c empty
    rw [link] at only
    refine ⟨only.1, fun x member => ?_⟩
    obtain ⟨m, ⟨before, d, later, badge, split, accepted, message⟩, delivered⟩ := only.2 x member
    refine ⟨before, d, later, badge, split, accepted, ?_⟩
    simp only [Outgoing.delivery?, message, Dispatch.message, Message.toHost?, Option.map_some, Option.some.injEq] at delivered
    rw [← delivered]

def dozing : Scene where
  stack :=
    { hub :=
        { loops := [{ settings := {} }], registered := 1,
          relay := some { settings := { outstanding := 8 }, pool := .ofCapacity 8 } }
      link := .uplink { settings := { capacity := 3 } }
      power := { awake := true, listener := some () } }

theorem dozing_starts : dozing.Starts :=
  ⟨⟨⟨{ outstanding := 8 }, some (.uplink { settings := { capacity := 3 } }), some { awake := true, listener := some () },
    [{}], 1⟩, rfl⟩, rfl⟩

def nights : List Move :=
  let send (sender : String) (permissions : Permissions) : Move :=
    .act (.send ⟨sender, [7], 1, ⟨1⟩, permissions, none, false, none⟩)
  [.act (.enrol "a" 1 1 .none), .act (.enrol "b" 2 2 .none), send "a" .none, .act .suspend, send "a" .audio,
    send "b" .none, send "a" .none, send "a" .none, .act .suspend, .act (.uplink (.pump 3)), .act .wake, .act .suspend,
    send "a" .none, .act .resetClaim, send "b" .none]

theorem nights_cycles : dozing.Starts ∧ dozing.stack.power.listener = some () ∧
    dozing.wakeMarks nights = [.accepted 0 false, .reset, .accepted 1 true, .accepted 0 true, .reset, .accepted 0 true,
      .reset, .accepted 1 true] ∧
    ((dozing.run nights).stack.hub.ledger.usage 0).wakeups = 1 ∧
    ((dozing.run nights).stack.hub.ledger.usage 1).wakeups = 2 ∧
    (∃ r, (dozing.run nights).stack.hub.relay = some r ∧ r.wakeClaim.taken = true) ∧
    ∃ u, (dozing.run nights).stack.link = .uplink u ∧ u.received.map (·.woke) = [false, true, true] ∧
      ∀ m ∈ u.queue.toList, dozing.Accepted nights m := by
  have marks : dozing.wakeMarks nights = [.accepted 0 false, .reset, .accepted 1 true, .accepted 0 true, .reset,
      .accepted 0 true, .reset, .accepted 1 true] := by decide
  obtain ⟨taken, wakeups, -, -, provenance⟩ := wake_cycles dozing nights dozing_starts rfl
  have first := wakeups 0
  have second := wakeups 1
  rw [marks] at taken first second
  refine ⟨dozing_starts, rfl, marks, first.trans (by decide), second.trans (by decide), ⟨_, rfl, ?_⟩, _, rfl, by decide,
    (provenance _ _ rfl rfl).1⟩
  exact (taken _ rfl).mpr ⟨[.accepted 0 false, .reset, .accepted 1 true, .accepted 0 true, .reset, .accepted 0 true, .reset],
    [], 1, rfl, by simp⟩

end Scene

end HubRelay
