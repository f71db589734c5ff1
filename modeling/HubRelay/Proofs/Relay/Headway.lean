import HubRelay.Proofs.Relay.Conveyance
import HubRelay.Proofs.Relay.Turnover

/-! Whatever the link, a task or a move does, messages get on by such steps. -/

set_option autoImplicit false

namespace HubRelay

open Docket

variable {left : Nat → Prop} {loose : Prop} {handles rest : List Handle}

namespace Uplink

def line (u : Uplink) : List Handle := u.queue.toList.map Outgoing.handle

theorem report_advances (times : Nat) (k : Handle) (h : Hub) :
    Advances left loose (h.docket (k :: rest)) ((reportTimes Hub.complete (times + 1) k h).docket rest) := by
  have again : ∀ (n : Nat) (h : Hub), h.live? k = none →
      Advances left loose (h.docket rest) ((reportTimes Hub.complete n k h).docket rest) := by
    intro n
    induction n with
    | zero => exact fun h _ => .refl
    | succ n ih =>
        intro h stale
        have later := ih (h.count RelayTally.countDuplicate) (by
          rw [← stale]
          unfold Hub.count Hub.onRelay Hub.live?
          cases h.relay <;> rfl)
        rw [Hub.docket_count] at later
        rw [reportTimes, Hub.complete_stale k h stale]
        exact later
  refine (Hub.complete_advances k h (.inl rfl)).trans (again times (h.complete k) ?_)
  cases live : h.live? k with
  | none =>
      rw [Hub.complete_stale k h live, ← live]
      unfold Hub.count Hub.onRelay Hub.live?
      cases h.relay <;> rfl
  | some parcel => exact (Hub.complete_finished k parcel h live).gone

theorem transmit_advances (m : Outgoing) (fails : Bool) (u : Uplink) (h : Hub) :
    Advances left loose (h.docket (m.handle :: rest)) ((transmit Hub.complete m fails u h).2.docket rest) := by
  obtain ⟨n, reports⟩ := reports_positive (u.record m fails)
  simp only [transmit, reports]
  exact report_advances n m.handle h

theorem transmit_line (m : Outgoing) (fails : Bool) (u : Uplink) (h : Hub) :
    (transmit Hub.complete m fails u h).1.line = u.line :=
  congrArg (fun queue : Fifo Outgoing => queue.toList.map Outgoing.handle) (record_queue m fails u)

theorem pump_advances (limit : Nat) (u : Uplink) (h : Hub) :
    Advances left loose (h.docket u.line)
      ((pump Hub.complete limit u h).2.2.docket (pump Hub.complete limit u h).2.1.line) := by
  induction limit generalizing u h with
  | zero => exact .refl
  | succ limit ih =>
      rw [pump]
      split
      · exact .refl
      · next m fails u' taken =>
          have first : u.line = m.handle :: u'.line := congrArg (List.map Outgoing.handle) (take_some taken).1
          have later := ih (transmit Hub.complete m fails u' h).1 (transmit Hub.complete m fails u' h).2
          rw [transmit_line] at later
          rw [first]
          exact (transmit_advances m fails u' h).trans later

theorem haul_advances (u : Uplink) (h : Hub) :
    Advances left loose (h.docket u.line) ((haul Hub.complete u h).2.docket (haul Hub.complete u h).1.line) := by
  unfold haul
  split
  · exact pump_advances _ u h
  · exact .refl

theorem failAll_advances (messages : List Outgoing) (u : Uplink) (h : Hub) (none : u.line = []) :
    Advances left loose (h.docket (messages.map Outgoing.handle))
      ((failAll Hub.complete messages u h).2.docket (failAll Hub.complete messages u h).1.line) := by
  induction messages generalizing u h with
  | nil =>
      rw [failAll, none]
      exact .refl
  | cons m rest ih => exact (transmit_advances m true u h).trans (ih _ _ ((transmit_line m true u h).trans none))

theorem shutdown_advances (u : Uplink) (h : Hub) :
    Advances left loose (h.docket u.line) ((shutdown Hub.complete u h).2.docket (shutdown Hub.complete u h).1.line) := by
  unfold shutdown
  split
  · exact .refl
  · exact (haul_advances u h).trans (failAll_advances _ _ _ rfl)

end Uplink

def Link.line : Link → List Handle
  | .uplink u => u.line
  | .puppet _ => []

namespace Stack

def docket (s : Stack) : Docket := s.hub.docket s.link.line

theorem advances_ease {s s' : Stack} (link : s'.link = s.link) (eases : s.hub.Eases s'.hub) :
    Advances left loose s.docket s'.docket := by
  rw [docket, docket, link]
  exact Hub.advances_ease eases

theorem haul_advances (s : Stack) : Advances left loose s.docket s.haul.docket := by
  obtain ⟨hub, link, power, names, labels, threads⟩ := s
  cases link with
  | uplink u => exact Uplink.haul_advances u hub
  | puppet p => exact .refl

theorem flush_advances (s : Stack) : Advances left loose s.docket s.flush.2.docket := by
  obtain ⟨hub, link, power, names, labels, threads⟩ := s
  cases link with
  | uplink u => exact Uplink.haul_advances u hub
  | puppet p => exact .refl

theorem shutdown_advances (s : Stack) : Advances left loose s.docket s.shutdown.docket := by
  obtain ⟨hub, link, power, names, labels, threads⟩ := s
  cases link with
  | uplink u => exact Uplink.shutdown_advances u hub
  | puppet p => exact .refl

theorem uplink_advances (c : UplinkCall) (u : Uplink) (s : Stack) (link : s.link = .uplink u) :
    Advances left loose s.docket (s.onUplink c u).2.docket := by
  have called : ∀ u' : Uplink, u'.queue = u.queue → Advances left loose s.docket (s.setUplink u').docket := by
    intro u' queue
    refine advances_to .refl ?_
    rw [docket, docket, link]
    exact congrArg (fun queue : Fifo Outgoing => s.hub.docket (queue.toList.map Outgoing.handle)) queue
  cases c with
  | start =>
      simp only [onUplink]
      split
      · next u' started =>
          obtain rfl := Uplink.start_ok started
          exact called _ rfl
      · exact .refl
  | pump limit =>
      rw [docket, link]
      exact Uplink.pump_advances limit u s.hub
  | pause | resume | spoil | takeReceived => exact called _ rfl

theorem docket_credit (badge : Badge) (woke : Bool) (s : Stack) (handles : List Handle) :
    (s.credit badge woke).hub.docket handles = s.hub.docket handles := by
  unfold credit
  split
  · rfl
  · next r relay =>
      simp only [onHub, Hub.docket, Hub.number?, Hub.live?, relay]
      rfl

theorem offer_line (m : Outgoing) (s : Stack) (u : Uplink) (link : s.link = .uplink u) :
    ∃ u', s.offer m = (true, s.setUplink u') ∧ u'.line = u.line ++ [m.handle] ∨
      s.offer m = (false, s.setUplink u') ∧ u'.line = u.line := by
  refine ⟨(u.send m).2, ?_⟩
  simp only [offer, link, Uplink.send]
  split
  · exact .inr ⟨rfl, rfl⟩
  · refine .inl ⟨rfl, ?_⟩
    simp only [Uplink.line, Fifo.toList_push, List.map_append, List.map_cons, List.map_nil]

theorem reject_advances (badge : Badge) (d : Dispatch Action) (n : Nat) (failure : SendFailure) (payload : Payload) (h : Hub)
    (s : Stack) (eases : h.Eases s.hub) (serial : s.hub.relay.map (·.serial) = some n) (handles : List Handle) :
    Advances left loose (h.docket handles)
      (((s.reject failure payload).2.hub.record (.offered n badge d (.rejected failure payload))).passSerial.docket handles) := by
  have counted := @Hub.docket_count handles s.hub (RelayTally.countRejection failure)
  refine Hub.spent_advances h _ n (Hub.eases_trans eases (Hub.eases_trans (eases_reject failure payload s)
    (Hub.eases_record _ _ rfl))) ?_
  exact (congrArg Docket.serial counted).trans serial

theorem sendAs_advances (badge : Badge) (d : Dispatch Action) (r : Relay) (s : Stack) (u : Uplink) (link : s.link = .uplink u)
    (clear : s.hub.Clear u.line) (relay : s.hub.relay = some r) :
    Advances left loose s.docket
      (((s.sendAs badge d r).2.hub.record (.offered r.serial badge d (s.sendAs badge d r).1)).passSerial.docket
        (s.sendAs badge d r).2.link.line) := by
  have here : s.hub.relay.map (·.serial) = some r.serial := by rw [relay]; rfl
  have line : s.link.line = u.line := by rw [link]; rfl
  rw [docket, line]
  rcases sendAs_early badge d s r with ⟨failure, -, answer⟩ | ⟨k, pool, allocated, answer⟩
  · obtain ⟨journal, noted⟩ := s.hub.noteDropped_cases d.free
    have dropped := @reject_advances left loose badge d r.serial failure d.payload s.hub (s.onHub (·.noteDropped d.free))
      (Hub.eases_noteDropped s.hub d.free) (by rw [onHub, noted]; exact here) u.line
    rw [answer]
    rw [← line] at dropped ⊢
    exact dropped
  · obtain ⟨u', ⟨offered, queue⟩ | ⟨offered, queue⟩⟩ :=
      offer_line ⟨k, d.message badge (!s.power.awake)⟩ (s.onHub (·.lent pool r)) u link
    · have credited := docket_credit badge (!s.power.awake) ((s.onHub (·.lent pool r)).setUplink u')
      have lent : (s.hub.lent pool r).docket u'.line =
          { s.hub.docket u.line with waiting := (s.hub.docket u.line).waiting ++ [r.serial] } := by
        have own : (s.hub.lent pool r).number? k = some r.serial := by
          rw [(Hub.number_lent clear relay allocated k).2, if_pos rfl]
        rw [← Hub.docket_lent clear relay allocated, queue]
        simp only [Hub.docket, List.filterMap_append, List.filterMap_cons, own, List.filterMap_nil]
      have link' : (((s.onHub (·.lent pool r)).setUplink u').credit badge (!s.power.awake)).link = .uplink u' := by
        unfold credit
        split <;> rfl
      rw [answer, offered]
      simp only [link']
      refine advances_to (.single (.send r.serial badge d k here)) ?_
      refine (@Hub.docket_numbered u'.line _ r.serial _ ?_ rfl).trans ?_
      · rw [credited]
        rfl
      · rw [credited]
        exact congrArg (fun g : Docket => { g with
          serial := some (r.serial + 1)
          told := .offered r.serial badge d (.sent k) :: g.told }) lent
    · have bounced := @reject_advances left loose badge d r.serial .refused
        (((s.onHub (·.lent pool r)).setUplink u').withdraw k).1 s.hub
        (((s.onHub (·.lent pool r)).setUplink u').onHub (·.reclaim k))
        (Hub.eases_bounced clear relay allocated) (Hub.relay_reclaim (s.hub.lent pool r) k) u.line
      rw [answer, offered]
      simp only [withdraw_cases]
      rw [← queue] at bounced ⊢
      exact bounced

theorem send_advances (d : Dispatch Action) (s : Stack) (u : Uplink) (link : s.link = .uplink u)
    (clear : s.hub.Clear u.line) : Advances left loose s.docket (s.send d).2.docket := by
  rcases send_cases d s with same | ⟨r, badge, labels, relay, sent⟩
  · rw [same]
  · have answered := @sendAs_advances left loose badge d r s u link clear relay
    rw [sent]
    exact answered

theorem act_advances (a : Action) (s : Stack) (u : Uplink) (honest : a.Honest) (unasked : ∀ r, a = .retry r → loose)
    (spared : ∀ r k n, a = .complete r → s.handle? r = some k → s.hub.number? k = some n → ¬left n)
    (link : s.link = .uplink u) (clear : s.hub.Clear s.link.line) : Advances left loose s.docket (s.act a).2.docket := by
  have line : s.link.line = u.line := by rw [link]; rfl
  have relayed : ∀ f : Stack → Reply × Stack, Advances left loose s.docket (f s).2.docket →
      Advances left loose s.docket (s.ifRelay f).2.docket :=
    fun f each => s.ifRelay_keeps (fun s' => Advances left loose s.docket s'.docket) f .refl each
  by_cases easy : a.Easy
  · by_cases aside : a.IsAsideLink
    · exact advances_ease (link_act a s aside) (eases_act a s easy honest)
    · cases a with
      | puppet call =>
          simp only [act, link]
          exact .refl
      | send | shutdown | flush | uplink => exact easy.elim
      | _ => exact absurd trivial aside
  · cases a with
    | send d => exact send_advances d s u link (line ▸ clear)
    | complete r =>
        refine relayed _ ?_
        split
        · exact .refl
        · next k named => exact Hub.complete_advances k s.hub (.inr ⟨rfl, fun n => spared r k n rfl named⟩)
    | retry r =>
        exact s.ifHandle_keeps (fun s' => Advances left loose s.docket s'.docket) r _ .refl fun k =>
          Hub.unasked_advances k s.hub (unasked r rfl)
    | deliver arrival viaLink =>
        simp only [act]
        split
        · next routing hub received => exact Hub.receive_advances s.hub hub arrival routing clear received
        · exact .refl
    | shutdown => exact relayed _ (shutdown_advances s)
    | flush => exact relayed _ (flush_advances s)
    | uplink call =>
        simp only [act, link]
        exact uplink_advances call u s link
    | _ => exact absurd trivial easy

theorem docket_next (i : Nat) (t : Task) (s next : Stack) (taken : s.next? i = some (t, next)) :
    (t.errand? = none ∧ next.hub.docket handles = s.hub.docket handles) ∨
      ∃ x rest, t.errand? = some x ∧ (s.hub.docket handles).work i = x :: rest ∧
        next.hub.docket handles = { s.hub.docket handles with work := Function.update (s.hub.docket handles).work i rest } := by
  obtain ⟨l, queue, place, waits, rfl⟩ := next_cases i t s next taken
  obtain ⟨work, -⟩ := Hub.place_work s.hub i l place
  have grown := Hub.work_set s.hub i l { l with queue := queue } place
  have still := Hub.attached_kept s.hub i l { l with queue := queue } place rfl
  rw [waits] at work
  cases errand : t.errand? with
  | none =>
      rw [List.filterMap_cons_none errand] at work
      rw [← work, Function.update_eq_self] at grown
      refine .inl ⟨rfl, ?_⟩
      simp only [Hub.docket, onHub, grown, still]
      rfl
  | some x =>
      rw [List.filterMap_cons_some errand] at work
      refine .inr ⟨x, _, rfl, work, ?_⟩
      simp only [Hub.docket, onHub, grown, still]
      rfl

theorem startEvent_eases (i : Nat) (e : Event) (s : Stack) :
    s.hub.Eases (s.startEvent i e).2.2.hub ∨
      ∃ g badge x, s.hub.Eases g ∧ (s.startEvent i e).2.2.hub = (g.record (.passed i badge e)).call i x := by
  have freed := eases_modify i RunLoop.freeEvent s (fun _ => rfl) fun _ => rfl
  simp only [startEvent]
  split
  · exact .inl (Hub.eases_trans freed (eases_missed i e RunLoop.countDropped (.missed i e) (s.modifyLoop i RunLoop.freeEvent)
      (fun _ => rfl) (fun _ => rfl) rfl))
  · next badge program _ =>
      have set := eases_modify i (·.setProgram badge.inst program.nextScript.2) (s.modifyLoop i RunLoop.freeEvent)
        (fun _ => rfl) fun _ => rfl
      have noted : ∀ s' : Stack, s'.hub.Eases (s'.noteEvent badge program e).hub := by
        intro s'
        cases program <;> exact Hub.eases_refl s'.hub
      exact .inr ⟨_, badge, _, Hub.eases_trans (Hub.eases_trans freed set) (noted _), rfl⟩

theorem idle_advances (i : Nat) (t : Task) (s next : Stack) (h : Hub) (idle : t.errand? = none)
    (taken : s.next? i = some (t, next)) (eases : next.hub.Eases h) :
    Advances left loose (s.hub.docket handles) (h.docket handles) := by
  rcases @docket_next handles i t s next taken with ⟨-, same⟩ | ⟨x, rest, errand, -⟩
  · rw [← same]
    exact Hub.advances_ease eases
  · rw [idle] at errand
    cases errand

theorem docket_next_errand (i : Nat) (t : Task) (x : Errand) (s next : Stack) (errand : t.errand? = some x)
    (taken : s.next? i = some (t, next)) :
    ∃ rest, (s.hub.docket handles).work i = x :: rest ∧
      next.hub.docket handles = { s.hub.docket handles with work := Function.update (s.hub.docket handles).work i rest } := by
  rcases @docket_next handles i t s next taken with ⟨none, -⟩ | ⟨y, rest, errand', waits, popped⟩
  · rw [errand] at none
    cases none
  · cases errand.symm.trans errand'
    exact ⟨rest, waits, popped⟩

theorem lost_advances (i : Nat) (e : Event) (s next : Stack) (h : Hub) (taken : s.next? i = some (.event e, next))
    (eases : next.hub.Eases h) : Advances left loose (s.hub.docket handles) (h.docket handles) := by
  rcases Hub.event_cases e with ⟨k, n, bears⟩ | ⟨-, idle, -⟩
  · obtain ⟨rest, first, popped⟩ := @docket_next_errand handles i _ _ s next (Hub.bears_errand k n e bears).1 taken
    refine .tail (.single (.skip i _ rest first rfl)) (.ease ?_)
    rw [← popped]
    exact eases handles
  · exact idle_advances i _ s next h idle taken eases

theorem passed_advances (i : Nat) (e : Event) (badge : Badge) (s next : Stack) (g : Hub)
    (taken : s.next? i = some (.event e, next)) (eases : next.hub.Eases g) :
    Advances left loose (s.hub.docket handles) ((g.record (.passed i badge e)).docket handles) := by
  rcases Hub.event_cases e with ⟨k, n, bears⟩ | ⟨plain, idle, -⟩
  · obtain ⟨rest, first, popped⟩ := @docket_next_errand handles i _ _ s next (Hub.bears_errand k n e bears).1 taken
    have moves : (Happening.passed i badge e).moves = true := by
      have hook : e.hook = some (.reclaim k n) := bears
      simp only [Happening.moves, Event.serial?, hook, Option.isSome_some]
    have told : (g.docket handles).told = (next.hub.docket handles).told := (eases handles).told
    refine .tail (.single (.pass i n k e rest badge first bears)) (.ease ?_)
    rw [Hub.docket_record g _ moves]
    have eased := eases handles
    rw [popped] at eased
    exact ⟨eased.serial, eased.waiting, eased.work, eased.attached, congrArg (Happening.passed i badge e :: ·) eased.told⟩
  · refine idle_advances i _ s next _ idle taken (Hub.eases_trans eases (Hub.eases_record g _ ?_))
    cases hook : e.hook with
    | none => simp only [Happening.moves, Event.serial?, hook, Option.isSome_none]
    | some action =>
        cases action with
        | note => simp only [Happening.moves, Event.serial?, hook, Option.isSome_none]
        | reclaim k n => exact absurd hook (plain k n)

theorem startTask_advances (i : Nat) (t : Task) (s next : Stack) (clear : s.hub.Clear handles)
    (taken : s.next? i = some (t, next)) :
    Advances left loose (s.hub.docket handles) ((next.startTask i t).2.2.hub.docket handles) := by
  cases t with
  | event e =>
      rcases startEvent_eases i e next with eases | ⟨g, badge, x, eases, passed⟩
      · exact lost_advances i e s next _ taken eases
      · have advances := @passed_advances left loose handles i e badge s next g taken eases
        rw [startTask, passed]
        exact advances
  | job j =>
      cases j with
      | user label script => exact idle_advances i _ s next _ rfl taken (Hub.eases_refl _)
      | handBack k n callback payload =>
          obtain ⟨rest, first, popped⟩ := @docket_next_errand handles i _ _ s next rfl taken
          refine advances_to (.single (.free i n k callback payload rest first)) ?_
          refine (@Hub.docket_record handles _ (.freed n callback payload) rfl).trans ?_
          exact congrArg (fun d : Docket => { d with told := .freed n callback payload :: d.told }) popped
      | retry k n =>
          obtain ⟨rest, first, popped⟩ := @docket_next_errand handles i _ _ s next rfl taken
          refine Hub.retry_advances _ next.hub i n k rest (fun m lives => ?_) first popped
          have same : next.hub.number? k = s.hub.number? k := by
            obtain ⟨l, queue, place, waits, rfl⟩ := next_cases i _ s next taken
            rfl
          exact clear.named i k n m (by rw [show s.hub.work i = _ from first]; exact List.mem_cons_self) (same ▸ lives)
  | load badge program => exact idle_advances i _ s next _ rfl taken (eases_startLoad i badge program next)
  | unload app => exact idle_advances i _ s next _ rfl taken (eases_startUnload i app next)
  | stop => exact idle_advances i _ s next _ rfl taken (Hub.eases_refl _)

theorem dropTask_advances (i : Nat) (s : Stack) :
    Advances left loose (s.hub.docket handles) ((s.dropTask i).hub.docket handles) := by
  unfold dropTask
  split
  · exact .refl
  · exact .refl
  · next e next taken =>
      exact lost_advances i e s next _ taken
        (eases_missed i e (fun l => l.freeEvent.countDropped) (.drained i e) next (fun _ => rfl) (fun _ => rfl) rfl)
  · next t next notJob notEvent taken =>
      refine idle_advances i t s next _ ?_ taken (Hub.eases_refl _)
      cases t with
      | event e => exact (notEvent e rfl).elim
      | job j => exact (notJob j rfl).elim
      | load | unload | stop => rfl

theorem dropLoop_advances (i : Nat) (s : Stack) :
    Advances left loose (s.hub.docket handles) ((s.dropLoop i).hub.docket handles) := by
  have dropped := Hub.eases_discarded ((s.loop? i).map (·.queue.toList) |>.getD [])
    (s.hub.modifyLoop i fun l => { l with queue := .empty, apps := [], attached := false })
  refine .trans ?_ (Hub.advances_ease dropped)
  rcases s.hub.modify_cases i fun l => { l with queue := .empty, apps := [], attached := false } with
    ⟨-, same⟩ | ⟨l, place, change⟩
  · rw [same]
  · rw [change]
    refine advances_to (.single (.letGo i)) ?_
    simp only [Hub.docket, Hub.work_set s.hub i l _ place, Hub.attached_set s.hub i l _ place, Fifo.toList_empty,
      List.filterMap_nil]
    rfl

end Stack

def Incident.Retries : Incident → Prop
  | .move (.act (.retry _)) => True
  | _ => False

def Incident.completes? (c : Scene) : Incident → Option Nat
  | .move (.act (.complete r)) => (c.stack.handle? r).bind fun k => c.stack.hub.number? k
  | _ => none

namespace Scene

theorem move_advances (m : Move) (c : Scene) (honest : m.Honest) (unasked : (Incident.move m).Retries → loose)
    (spared : ∀ n, (Incident.move m).completes? c = some n → ¬left n) (linked : c.stack.Linked)
    (clear : c.stack.hub.Clear c.stack.link.line) : Advances left loose c.stack.docket (c.move m).stack.docket := by
  obtain ⟨u, link⟩ := linked
  by_cases acts : ∃ a, m = .act a
  · obtain ⟨a, rfl⟩ := acts
    refine Stack.act_advances a c.stack u honest (fun r same => unasked ?_)
      (fun r k n same named number => spared n ?_) link clear
    · rw [same]
      trivial
    · rw [same]
      exact Option.bind_eq_some_iff.mpr ⟨k, named, number⟩
  · by_cases hauls : m = .haul
    · rw [hauls]
      exact Stack.haul_advances c.stack
    · have still := link_move m c (fun a same => acts ⟨a, same⟩) hauls
      rw [Stack.docket, Stack.docket, still]
      have quiet : ∀ (i : Nat) (f : RunLoop → RunLoop), (∀ l, (f l).queue = l.queue) →
          (∀ l, (f l).attached = true → l.attached = true) →
          Advances left loose (c.stack.hub.docket c.stack.link.line) ((c.stack.modifyLoop i f).hub.docket c.stack.link.line) :=
        fun i f queue within => Hub.advances_ease (Hub.eases_modify c.stack.hub i f (fun l => by rw [queue l]) within)
      cases m with
      | act a => exact absurd ⟨a, rfl⟩ acts
      | haul => exact absurd rfl hauls
      | turn | note | tell => exact .refl
      | occupy i => exact quiet i _ (fun _ => rfl) fun _ => id
      | shut i => exact quiet i _ (fun _ => rfl) fun _ => id
      | clearRoster i => exact quiet i _ (fun _ => rfl) fun _ => id
      | take i =>
          simp only [move, take]
          split
          · exact .refl
          · next t next taken => exact Stack.startTask_advances i t c.stack next clear taken
      | finish place =>
          simp only [move, finish]
          split
          · exact .refl
          · next i rest _ => exact Hub.advances_ease (Stack.eases_finishTask i rest c.stack)
      | quit i place =>
          obtain ⟨journal, calls, left⟩ := Stack.quit_cases i place c.stack
          simp only [move, onStack, left]
          exact quiet i (·.dismiss place) (fun _ => rfl) fun _ => id
      | drop i =>
          simp only [move]
          split
          · exact Stack.dropTask_advances i c.stack
          · exact .refl
      | detach i =>
          simp only [move]
          split
          · exact quiet i _ (fun _ => rfl) fun _ gone => absurd gone Bool.false_ne_true
          · exact .refl
      | dropRelay => exact Hub.advances_ease (Hub.eases_dropRelay c.stack.hub)

theorem meet_advances (x : Incident) (c : Scene) (honest : x.Honest) (unasked : x.Retries → loose)
    (spared : ∀ n, x.completes? c = some n → ¬left n) (linked : c.stack.Linked) (clear : c.stack.hub.Clear c.stack.link.line) :
    Advances left loose c.stack.docket (c.meet x).stack.docket := by
  cases x with
  | dropLoop i => exact Stack.dropLoop_advances i c.stack
  | move m => exact move_advances m c honest unasked spared linked clear

end Scene

end HubRelay
