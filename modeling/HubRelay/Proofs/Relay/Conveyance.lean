import HubRelay.Proofs.Link.Passages
import HubRelay.Proofs.Relay.Incidents
import HubRelay.Proofs.Relay.Offers
import HubRelay.Proofs.Relay.Soundness

/-! What passes through the link of a hub. Each message is accepted as it was sent, and the host receives those that
do not fail in that order. -/

set_option autoImplicit false

namespace HubRelay

namespace Uplink

def takes (limit : Nat) (u : Uplink) : List Passage := if u.paused then [] else (u.queue.toList.take limit).map .taken

def hauls (u : Uplink) : List Passage := if u.hauling then u.takes u.queue.length else []

-- What the transport thread does not take is still in the queue as the link closes.
def shuts (u : Uplink) : List Passage :=
  if u.shutDown then []
  else
    let left := if u.hauling then [] else u.queue.toList
    u.hauls ++ .closed left :: left.map .drained

theorem record_paused (m : Outgoing) (fails : Bool) (u : Uplink) : (u.record m fails).paused = u.paused := by
  unfold record
  split <;> rfl

theorem take_none {u : Uplink} (none : u.take? = none) : u.paused = true ∨ u.queue.toList = [] := by
  unfold take? at none
  split at none
  · next paused => exact .inl paused
  · exact .inr (Fifo.pop?_eq_none.mp (Option.map_eq_none_iff.mp none))

theorem take_going {u u' : Uplink} (m : Outgoing) (fails : Bool) (taken : u.take? = some (m, fails, u')) :
    u.paused = false := by
  obtain ⟨queue, -, -, going, -⟩ := take_eq taken
  exact going

section Listener

variable {σ : Type} (complete : Handle → σ → σ)

theorem pump_conveys (limit : Nat) (u : Uplink) (s : σ) (b : Manifest) (conveys : u.Conveys b []) :
    (u.pump complete limit s).2.1.Conveys (b.addAll (u.takes limit)) [] := by
  induction limit generalizing u s b with
  | zero =>
      have still : u.takes 0 = [] := by simp [takes]
      rw [still]
      exact conveys
  | succ limit ih =>
      rw [pump]
      split
      · next none =>
          have still : u.takes (limit + 1) = [] := by
            rcases take_none none with paused | empty
            · simp [takes, paused]
            · simp [takes, empty]
          rw [still]
          exact conveys
      · next m fails u' taken =>
          have going := take_going m fails taken
          have more : u.takes (limit + 1) = .taken m :: (u'.record m fails).settle.takes limit := by
            have going' : (u'.record m fails).settle.paused = false :=
              (record_paused m fails u').trans ((take_moved m fails taken).2.2.2.trans going)
            have rest : (u'.record m fails).settle.queue = u'.queue := record_queue m fails u'
            simp [takes, going, going', rest, (take_some taken).1]
          rw [more]
          exact ih _ _ _ (conveys_idle (conveys_take m fails conveys taken) ⟨rfl, rfl, rfl, rfl, rfl⟩)

theorem pump_queue (limit : Nat) (u : Uplink) (s : σ) (going : u.paused = false) :
    (u.pump complete limit s).2.1.queue.toList = u.queue.toList.drop limit := by
  induction limit generalizing u s with
  | zero => rfl
  | succ limit ih =>
      rw [pump]
      split
      · next none =>
          rcases take_none none with paused | empty
          · rw [going] at paused
            cases paused
          · rw [empty]
            rfl
      · next m fails u' taken =>
          have rest : (u'.record m fails).settle.queue = u'.queue := record_queue m fails u'
          rw [(take_some taken).1, List.drop_succ_cons, ← rest]
          exact ih _ _ ((record_paused m fails u').trans ((take_moved m fails taken).2.2.2.trans going))

theorem haul_conveys (u : Uplink) (s : σ) (b : Manifest) (conveys : u.Conveys b []) :
    (u.haul complete s).1.Conveys (b.addAll u.hauls) [] ∧
      (u.haul complete s).1.queue.toList = if u.hauling then [] else u.queue.toList := by
  unfold haul hauls
  split
  · next hauling =>
      have going : u.paused = false := by
        cases paused : u.paused with
        | false => rfl
        | true => simp [Uplink.hauling, paused] at hauling
      refine ⟨pump_conveys complete u.queue.length u s b conveys, ?_⟩
      rw [pump_queue complete u.queue.length u s going, ← Fifo.length_toList, List.drop_length]
  · exact ⟨conveys, rfl⟩

theorem failAll_conveys (messages : List Outgoing) (u : Uplink) (s : σ) (b : Manifest) (conveys : u.Conveys b messages) :
    (u.failAll complete messages s).1.Conveys (b.addAll (messages.map .drained)) [] := by
  induction messages generalizing u s b with
  | nil => exact conveys
  | cons m rest ih => exact ih _ _ _ (conveys_idle (conveys_drain m conveys) ⟨rfl, rfl, rfl, rfl, rfl⟩)

theorem shutdown_conveys (u : Uplink) (s : σ) (b : Manifest) (conveys : u.Conveys b []) :
    (u.shutdown complete s).1.Conveys (b.addAll u.shuts) [] := by
  unfold shutdown shuts
  split
  · exact conveys
  · obtain ⟨hauled, left⟩ := haul_conveys complete u s b conveys
    have closed := conveys_close hauled
    rw [List.nil_append] at closed
    rw [Manifest.addAll_append, ← left]
    exact failAll_conveys complete _ _ _ _ closed

end Listener

end Uplink

namespace Stack

def tries (d : Dispatch Action) (s : Stack) : Option (Badge × Reply) :=
  s.hub.relay.bind fun r => (s.names.lookup d.sender).map fun badge => (badge, (s.sendAs badge d r).1)

def sends (d : Dispatch Action) (s : Stack) : List Passage :=
  match s.tries d with
  | some (badge, .sent k) => [.accepted ⟨k, d.message badge (!s.power.awake)⟩]
  | some (_, .rejected .refused _) => [.refused]
  | _ => []

def passes (a : Action) (u : Uplink) (s : Stack) : List Passage :=
  match a with
  | .send d => s.sends d
  | .uplink (.pump limit) => u.takes limit
  | .uplink (.spoil count) => [.granted count]
  | .uplink .takeReceived => [.collected u.received]
  | .flush => if s.hub.relay.isSome then u.hauls else []
  | .shutdown => if s.hub.relay.isSome then u.shuts else []
  | _ => []

end Stack

namespace Link

def Conveys (b : Manifest) : Link → Prop
  | .uplink u => u.Conveys b []
  | .puppet _ => False

end Link

def Action.IsAsideLink : Action → Prop
  | .send _ | .flush | .shutdown | .uplink _ | .puppet _ => False
  | _ => True

namespace Stack

theorem link_ifLoop (i : Nat) (f : RunLoop → Reply × Stack) (s : Stack) (each : ∀ l, (f l).2.link = s.link) :
    (s.ifLoop i f).2.link = s.link :=
  s.ifLoop_keeps (·.link = s.link) i f rfl fun l _ => each l

theorem link_ifRelay (f : Stack → Reply × Stack) (s : Stack) (each : (f s).2.link = s.link) :
    (s.ifRelay f).2.link = s.link :=
  s.ifRelay_keeps (·.link = s.link) f rfl each

theorem link_act (a : Action) (s : Stack) (aside : a.IsAsideLink) : (s.act a).2.link = s.link := by
  cases a with
  | send | flush | shutdown | uplink | puppet => exact aside.elim
  | load | loadMany | find | stop => exact link_ifLoop _ _ s fun _ => rfl
  | unload i app =>
      refine link_ifLoop i _ s fun _ => ?_
      split
      · next next taken => exact link_enqueue s next i _ taken
      · rfl
  | grab i app name =>
      refine link_ifLoop i _ s fun _ => ?_
      split <;> rfl
  | enrol | wake => rfl
  | post i event =>
      refine link_ifLoop i _ s fun _ => ?_
      split
      · next next taken => exact link_enqueue s next i _ taken
      · rfl
  | defer i label script =>
      refine link_ifLoop i _ s fun _ => ?_
      split
      · next next taken => exact link_enqueue s next i _ taken
      · rfl
  | complete r | retry r =>
      refine link_ifRelay _ s ?_
      split <;> rfl
  | deliver arrival viaLink =>
      simp only [act]
      split <;> rfl
  | resetClaim => exact link_ifRelay _ s rfl
  | suspend =>
      simp only [act]
      split <;> rfl
  | malformed toRelay =>
      simp only [act]
      split
      · exact link_ifRelay _ s rfl
      · rfl

theorem sendAs_link (badge : Badge) (d : Dispatch Action) (r : Relay) (s : Stack) (u : Uplink) (link : s.link = .uplink u) :
    (∃ failure payload, failure ≠ .refused ∧ (s.sendAs badge d r).1 = .rejected failure payload ∧
        (s.sendAs badge d r).2.link = .uplink u) ∨
      ∃ k, let sent := u.send ⟨k, d.message badge (!s.power.awake)⟩
        (s.sendAs badge d r).2.link = .uplink sent.2 ∧
          (sent.1 = true ∧ (s.sendAs badge d r).1 = .sent k ∨
            sent.1 = false ∧ ∃ payload, (s.sendAs badge d r).1 = .rejected .refused payload) := by
  rcases sendAs_early badge d s r with ⟨failure, early, refused⟩ | ⟨k, pool, -, answered⟩
  · rw [refused]
    exact .inl ⟨failure, d.payload, early, rfl, link⟩
  · refine .inr ⟨k, ?_⟩
    have offered : (s.onHub (·.lent pool r)).offer ⟨k, d.message badge (!s.power.awake)⟩ =
        ((u.send ⟨k, d.message badge (!s.power.awake)⟩).1,
          (s.onHub (·.lent pool r)).setUplink (u.send ⟨k, d.message badge (!s.power.awake)⟩).2) := by
      have link' : (s.onHub (·.lent pool r)).link = .uplink u := link
      simp only [offer, link']
    rw [answered, offered]
    cases taken : (u.send ⟨k, d.message badge (!s.power.awake)⟩).1 with
    | true => exact ⟨(credit_link badge _ _).1, .inl ⟨taken, rfl⟩⟩
    | false =>
        refine ⟨?_, .inr ⟨taken, _, rfl⟩⟩
        change (withdraw k _).2.link = _
        rw [withdraw_cases]
        rfl

theorem send_conveys (d : Dispatch Action) (s : Stack) (b : Manifest) (conveys : s.link.Conveys b) :
    (s.send d).2.link.Conveys (b.addAll (s.sends d)) := by
  cases relay : s.hub.relay with
  | none =>
      have idle : s.sends d = [] := by simp [sends, tries, relay]
      have same : (s.send d).2 = s := by simp [send, relay]
      rw [idle, same]
      exact conveys
  | some r =>
      cases named : s.names.lookup d.sender with
      | none =>
          have idle : s.sends d = [] := by simp [sends, tries, relay, named]
          have same : (s.send d).2 = s := by simp [send, relay, named]
          rw [idle, same]
          exact conveys
      | some badge =>
          cases link : s.link with
          | puppet p =>
              rw [link] at conveys
              exact conveys.elim
          | uplink u =>
              rw [link] at conveys
              rw [(send_named badge d r s relay named).2.2.1]
              have tried : s.tries d = some (badge, (s.sendAs badge d r).1) := by simp [tries, relay, named]
              rcases sendAs_link badge d r s u link with
                ⟨failure, payload, early, answer, link'⟩ | ⟨k, link', ⟨taken, answer⟩ | ⟨refused, payload, answer⟩⟩
              · have idle : s.sends d = [] := by
                  rw [answer] at tried
                  cases failure with
                  | refused => exact absurd rfl early
                  | tooLarge | permissions | poolExhausted => simp only [sends, tried]
                rw [link', idle]
                exact conveys
              · have offered := Uplink.conveys_send ⟨k, d.message badge (!s.power.awake)⟩ conveys
                rw [taken] at offered
                rw [link', sends, tried, answer]
                exact offered
              · have offered := Uplink.conveys_send ⟨k, d.message badge (!s.power.awake)⟩ conveys
                rw [refused] at offered
                rw [link', sends, tried, answer]
                exact offered

theorem uplink_conveys (c : UplinkCall) (s : Stack) (u : Uplink) (b : Manifest) (link : s.link = .uplink u)
    (conveys : u.Conveys b []) : (s.onUplink c u).2.link.Conveys (b.addAll (s.passes (.uplink c) u)) := by
  cases c with
  | start =>
      simp only [onUplink]
      split
      · next u' started => exact Uplink.conveys_idle conveys (Uplink.start_idles started)
      · rw [link]
        exact conveys
  | pump limit => exact Uplink.pump_conveys Hub.complete limit u s.hub b conveys
  | pause | resume => exact Uplink.conveys_idle conveys ⟨rfl, rfl, rfl, rfl, rfl⟩
  | spoil count => exact Uplink.conveys_grant count conveys
  | takeReceived => exact Uplink.conveys_collect conveys

theorem act_conveys (a : Action) (s : Stack) (u : Uplink) (b : Manifest) (link : s.link = .uplink u)
    (conveys : u.Conveys b []) : (s.act a).2.link.Conveys (b.addAll (s.passes a u)) := by
  have held : s.link.Conveys b := by
    rw [link]
    exact conveys
  have apart : a.IsAsideLink → (s.act a).2.link.Conveys b := by
    intro aside
    rw [link_act a s aside]
    exact held
  cases a with
  | send d => exact send_conveys d s b held
  | flush =>
      cases relay : s.hub.relay with
      | none =>
          simp only [act, ifRelay, passes, relay]
          exact held
      | some r =>
          simp only [act, ifRelay, passes, flush, relay, link]
          exact (Uplink.haul_conveys Hub.complete u s.hub b conveys).1
  | shutdown =>
      cases relay : s.hub.relay with
      | none =>
          simp only [act, ifRelay, passes, relay]
          exact held
      | some r =>
          simp only [act, ifRelay, passes, shutdown, relay, link]
          exact Uplink.shutdown_conveys Hub.complete u s.hub b conveys
  | uplink c =>
      simp only [act, link]
      exact uplink_conveys c s u b link conveys
  | puppet c =>
      simp only [act, link]
      exact conveys
  | load | loadMany | unload | find | grab | enrol | post | defer | stop | complete | retry | deliver | resetClaim | suspend
  | wake | malformed => exact apart trivial

end Stack

namespace Scene

def passes (x : Incident) (c : Scene) : List Passage :=
  match c.stack.link with
  | .puppet _ => []
  | .uplink u =>
      match x with
      | .move (.act a) => c.stack.passes a u
      | .move .haul => u.hauls
      | _ => []

def passages : List Incident → Scene → List Passage
  | [], _ => []
  | x :: rest, c => c.passes x ++ passages rest (c.meet x)

theorem link_move (m : Move) (c : Scene) (aside : ∀ a, m ≠ .act a) (apart : m ≠ .haul) :
    (c.move m).stack.link = c.stack.link := by
  cases m with
  | act a => exact absurd rfl (aside a)
  | haul => exact absurd rfl apart
  | take i =>
      cases taken : c.stack.next? i with
      | none => simp only [move, take, taken]
      | some found =>
          simp only [move, take, taken]
          rw [Stack.link_startTask, (Stack.next_outlook c.stack found.2 i found.1 taken).2.1]
  | finish place =>
      simp only [move, finish]
      split
      · rfl
      · rw [Stack.link_finishTask]
  | quit i place => exact Stack.link_quit i place c.stack
  | drop i =>
      simp only [move]
      split
      · exact Stack.link_dropTask i c.stack
      · rfl
  | detach i =>
      simp only [move]
      split <;> rfl
  | turn | note | tell | occupy | shut | clearRoster | dropRelay => rfl

theorem meet_conveys (x : Incident) (c : Scene) (b : Manifest) (conveys : c.stack.link.Conveys b) :
    (c.meet x).stack.link.Conveys (b.addAll (c.passes x)) := by
  cases link : c.stack.link with
  | puppet p =>
      rw [link] at conveys
      exact conveys.elim
  | uplink u =>
      have held := conveys
      rw [link] at conveys
      have apart : ∀ m : Move, (∀ a, m ≠ .act a) → m ≠ .haul → (c.move m).stack.link.Conveys b := by
        intro m aside apart
        rw [link_move m c aside apart]
        exact held
      simp only [passes, link]
      cases x with
      | dropLoop i => exact held
      | move m =>
          cases m with
          | act a => exact Stack.act_conveys a c.stack u b link conveys
          | haul =>
              simp only [meet, move, onStack, Stack.haul, link]
              exact (Uplink.haul_conveys Hub.complete u c.stack.hub b conveys).1
          | turn | note | tell | occupy | take | finish | shut | quit | clearRoster | drop | detach | dropRelay =>
              exact apart _ (by simp) (by simp)

theorem undergo_conveys (incidents : List Incident) (c : Scene) (b : Manifest) (conveys : c.stack.link.Conveys b) :
    (c.undergo incidents).stack.link.Conveys (b.addAll (c.passages incidents)) := by
  induction incidents generalizing c b with
  | nil => exact conveys
  | cons x rest ih =>
      rw [passages, Manifest.addAll_append]
      exact ih (c.meet x) _ (meet_conveys x c b conveys)

end Scene

namespace Manifest

end Manifest

namespace Uplink

def Bears (n : Nat) (m : Outgoing) (x : Delivery) (b : Manifest) (u : Uplink) : Prop :=
  b.accepted[n]? = some m ∧
    (b.verdicts.length ≤ n ∧ u.queue.toList[n - b.verdicts.length]? = some m ∨ b.verdicts[n]? = some (m, true) ∨
      b.verdicts[n]? = some (m, false) ∧ x ∈ b.collected ++ u.received)

end Uplink

namespace Scene

theorem opens_conveys {settings : LinkSettings} {c : Scene} (opens : c.Opens settings) : c.stack.link.Conveys {} := by
  rw [(opens_cases settings c opens).2.1]
  exact Uplink.fresh_conveys settings

def replied : List Turn :=
  [.call (.send ⟨⟨0, 0⟩, ⟨1, [7], .toHost ⟨1, .none, .none, ⟨1⟩, true⟩⟩⟩), .step, .call (.uplink (.pump 1))] ++
    List.replicate 20 .step

end Scene

end HubRelay
