import HubRelay.Proofs.Relay.Bearings
import HubRelay.Proofs.Relay.Losses

/-! Payloads that go back to their senders. Each is handed back by one loop, which is settled as the link is done with
the message. -/

set_option autoImplicit false

namespace HubRelay

namespace Custody

variable {t t' : Custody} {size : Nat}

def Sends (n : Nat) (app : AppId) (t : Custody) : Prop :=
  (∃ badge d answer, .offered n badge d answer ∈ t.history ∧ badge.app = app) ∨
    ∃ b, t.bid = some b ∧ n = t.serial ∧ b.badge.app = app

theorem deal_sends (deal : Deal t t') (n : Nat) (app : AppId) (sends : t.Sends n app) : t'.Sends n app := by
  rcases sends with ⟨badge, d, answer, member, own⟩ | ⟨b, bids, rfl, own⟩
  · exact .inl ⟨badge, d, answer, deal_within deal _ member, own⟩
  · rcases deal_bid deal b bids with ⟨bids', same⟩ | ⟨answer, offered, -⟩
    · exact .inr ⟨b, bids', same.symm, own⟩
    · exact .inl ⟨b.badge, b.dispatch, answer, offered, own⟩

theorem deals_sends (deals : Deals t t') (n : Nat) (app : AppId) (sends : t.Sends n app) : t'.Sends n app := by
  induction deals with
  | refl => exact sends
  | tail _ deal held => exact deal_sends deal n app held

theorem holds_sends (k : Handle) (parcel : Parcel) (callback : FreeCallback Action) (holds : t.Holds k parcel)
    (heard : parcel.callback = some callback) : t.Sends parcel.serial parcel.message.app := by
  rcases holds with (⟨badge, d, woke, offered, message, -⟩ | ⟨a, routing, -, -, -, silent⟩) | ⟨badge, d, woke, bids, rfl⟩
  · exact .inl ⟨badge, d, _, offered, by rw [message]; rfl⟩
  · rw [silent] at heard
    cases heard
  · exact .inr ⟨_, bids, rfl, rfl⟩

def Assigned (t : Custody) : Prop :=
  ∀ i k n callback payload, (i, .handBack k n callback payload) ∈ t.errands → .completed n (.handed i) ∈ t.history

theorem deal_assigned (deal : Deal t t') (assigned : t.Assigned) : t'.Assigned := by
  intro i k n callback payload member
  have older : (i, .handBack k n callback payload) ∈ t.errands → .completed n (.handed i) ∈ t'.history :=
    fun old => deal_within deal _ (assigned i k n callback payload old)
  cases deal with
  | remark | refuse | lend | accept | withdraw | settle | turnDown | bounce | bereave => exact older member
  | hand p parcel k' callback' j alive live heard =>
      rcases Multiset.mem_cons.mp member with same | old
      · cases same
        exact List.mem_cons_self
      · exact older old
  | deliver | putOff | ask =>
      rcases Multiset.mem_cons.mp member with same | old
      · cases same
      · exact older old
  | repost j n' k' es p parcel i' badge idle work | free j n' k' callback' payload' es idle work | pass j n' k' e es idle work =>
      rcases Multiset.mem_cons.mp member with same | old
      · cases same
      · exact older (by rw [work]; exact Multiset.mem_cons_of_mem old)
  | fizzle j n' k' es idle work | giveUp j x es idle work =>
      exact older (by rw [work]; exact Multiset.mem_cons_of_mem member)

theorem deals_assigned (deals : Deals t t') (assigned : t.Assigned) : t'.Assigned := by
  induction deals with
  | refl => exact assigned
  | tail _ deal held => exact deal_assigned deal held

end Custody

namespace Hub

section Reports

variable (size : Nat) (hand : List (Nat × Epilogue)) (asked : List Parcel) (bid : Option Bid) (lost : Multiset (Nat × Errand))

structure Reports (past h : Hub) : Prop where
  outlook : past.outlook = h.outlook
  sound : ((h.custody hand asked bid).beside lost).Sound size
  returns : ∃ news, h.bearings = { past.bearings with returns := news ++ past.bearings.returns } ∧
    ∀ x ∈ news, ∃ n app, x = .completed n (.handed (past.home app)) ∧ (h.custody hand asked bid).Sends n app

variable {size} {hand} {asked} {bid} {lost} {past : Hub}

theorem reports_none (sound : ((past.custody hand asked bid).beside lost).Sound size) :
    past.Reports size hand asked bid lost past :=
  ⟨rfl, sound, [], rfl, fun _ member => absurd member List.not_mem_nil⟩

theorem reports_complete (k : Handle) (h : Hub) (reports : past.Reports size hand asked bid lost h) :
    past.Reports size hand asked bid lost (h.complete k) := by
  obtain ⟨outlook, sound, news, bearings, homes⟩ := reports
  obtain ⟨same, change⟩ := bearings_complete k h
  have deals := @complete_deals hand asked bid k h
  have older : ∀ x ∈ news, ∃ n app, x = .completed n (.handed (past.home app)) ∧
      ((h.complete k).custody hand asked bid).Sends n app := by
    intro x member
    obtain ⟨n, app, told, sends⟩ := homes x member
    exact ⟨n, app, told, Custody.deals_sends deals n app sends⟩
  refine ⟨outlook.trans same.symm, Custody.deals_sound (Custody.deals_beside lost deals) sound, ?_⟩
  rcases change with kept | ⟨r, parcel, callback, relay, live, heard, more⟩
  · exact ⟨news, kept.trans bearings, older⟩
  · have lives : ((h.custody hand asked bid).beside lost).live? k = some parcel := by
      simp only [Custody.live?, Custody.beside, custody, relay, Option.map_some, Option.bind_some]
      exact live
    have sends := Custody.holds_sends k parcel callback (sound.lodged.holds k parcel lives) heard
    refine ⟨.completed parcel.serial (.handed (h.home parcel.message.app)) :: news, ?_, fun x member => ?_⟩
    · rw [more, bearings]
      rfl
    · rcases List.mem_cons.mp member with rfl | old
      · rw [← home_outlook past h parcel.message.app outlook]
        exact ⟨_, _, rfl, Custody.deals_sends deals _ _ sends⟩
      · exact older x old

theorem reports_completions (handles : List Handle) (h : Hub) (reports : past.Reports size hand asked bid lost h) :
    past.Reports size hand asked bid lost (handles.foldl (fun h k => h.complete k) h) := by
  induction handles generalizing h with
  | nil => exact reports
  | cons k rest ih => exact ih (h.complete k) (reports_complete k h reports)

end Reports

end Hub

namespace Stack

variable {size : Nat} {hand : List (Nat × Epilogue)} {asked : List Parcel} {bid : Option Bid} {lost : Multiset (Nat × Errand)}

theorem reports_haul (s : Stack) (sound : ((s.hub.custody hand asked bid).beside lost).Sound size) :
    s.hub.Reports size hand asked bid lost s.haul.hub := by
  unfold haul
  split
  · next u _ =>
      exact Uplink.haul_keeps Hub.complete (s.hub.Reports size hand asked bid lost) Hub.reports_complete u s.hub
        (Hub.reports_none sound)
  · exact Hub.reports_none sound

theorem reports_flush (s : Stack) (sound : ((s.hub.custody hand asked bid).beside lost).Sound size) :
    s.hub.Reports size hand asked bid lost s.flush.2.hub := by
  unfold flush
  split
  · next u _ =>
      exact Uplink.haul_keeps Hub.complete (s.hub.Reports size hand asked bid lost) Hub.reports_complete u s.hub
        (Hub.reports_none sound)
  · exact Hub.reports_none sound

theorem reports_shutdown (s : Stack) (sound : ((s.hub.custody hand asked bid).beside lost).Sound size) :
    s.hub.Reports size hand asked bid lost s.shutdown.hub := by
  unfold shutdown
  split
  · next u _ =>
      exact Uplink.shutdown_keeps Hub.complete (s.hub.Reports size hand asked bid lost) Hub.reports_complete u s.hub
        (Hub.reports_none sound)
  · exact Hub.reports_none sound

theorem reports_uplink (c : UplinkCall) (u : Uplink) (s : Stack)
    (sound : ((s.hub.custody hand asked bid).beside lost).Sound size) :
    s.hub.Reports size hand asked bid lost (s.onUplink c u).2.hub := by
  cases c with
  | start =>
      simp only [onUplink]
      split <;> exact Hub.reports_none sound
  | pump limit =>
      exact Uplink.pump_keeps Hub.complete (s.hub.Reports size hand asked bid lost) Hub.reports_complete limit u s.hub
        (Hub.reports_none sound)
  | pause | resume | spoil | takeReceived => exact Hub.reports_none sound

theorem reports_offer (m : Outgoing) (s : Stack) (sound : ((s.hub.custody hand asked bid).beside lost).Sound size) :
    s.hub.Reports size hand asked bid lost (s.offer m).2.hub := by
  unfold offer
  split
  · exact Hub.reports_none sound
  · simp only
    split <;> exact Hub.reports_completions _ s.hub (Hub.reports_none sound)

theorem reports_lent (b : Bid) (m : Outgoing) (pool : SlotPool Parcel) (r : Relay) (s : Stack) (relay : s.hub.relay = some r)
    (sound : ((s.hub.custody hand asked none).beside lost).Sound size)
    (deal : Deal (s.hub.custody hand asked none) ((s.hub.lent pool r).custody hand asked (some b))) :
    s.hub.Reports size hand asked (some b) lost ((s.onHub (·.lent pool r)).offer m).2.hub := by
  obtain ⟨outlook, sound, news, change, homes⟩ := reports_offer m (s.onHub (·.lent pool r))
    (Custody.deals_sound (.single (Custody.deal_beside lost deal)) sound)
  refine ⟨outlook, sound, news, ?_, homes⟩
  rw [change, onHub, Hub.bearings_lent s.hub pool r relay]

theorem reports_answered (past : Hub) (b : Bid) (h next : Hub) (reports : past.Reports size hand asked (some b) lost h)
    (outlook : h.outlook = next.outlook) (bearings : next.bearings = h.bearings)
    (deal : Deal (h.custody hand asked (some b)) (next.custody hand asked none)) :
    past.Reports size hand asked none lost next := by
  obtain ⟨same, sound, news, change, homes⟩ := reports
  refine ⟨same.trans outlook, Custody.deals_sound (.single (Custody.deal_beside lost deal)) sound, news,
    bearings.trans change, fun x member => ?_⟩
  obtain ⟨n, app, told, sends⟩ := homes x member
  exact ⟨n, app, told, Custody.deal_sends deal n app sends⟩

theorem outlook_credit (badge : Badge) (woke : Bool) (s : Stack) : (s.credit badge woke).hub.outlook = s.hub.outlook := by
  unfold credit
  split <;> rfl

theorem turned_level (failure : SendFailure) (d : Dispatch Action) (s : Stack) :
    ((s.onHub (·.noteDropped d.free)).reject failure d.payload).2.hub.outlook = s.hub.outlook ∧
      ((s.onHub (·.noteDropped d.free)).reject failure d.payload).2.hub.bearings = s.hub.bearings := by
  obtain ⟨journal, noted⟩ := s.hub.noteDropped_cases d.free
  have level : (s.hub.noteDropped d.free).outlook = s.hub.outlook := by rw [noted]; rfl
  exact ⟨level, (bearings_reject failure d.payload (s.onHub (·.noteDropped d.free))).trans (Hub.bearings_noteDropped s.hub d.free)⟩

theorem withdrawn_level (k : Handle) (s : Stack) :
    ((s.withdraw k).2.reject .refused (s.withdraw k).1).2.hub.outlook = s.hub.outlook ∧
      ((s.withdraw k).2.reject .refused (s.withdraw k).1).2.hub.bearings = s.hub.bearings := by
  rw [withdraw_cases]
  exact ⟨Hub.outlook_reclaim s.hub k, (bearings_reject _ _ _).trans (Hub.bearings_reclaim s.hub k)⟩

theorem reports_send (d : Dispatch Action) (s : Stack) (sound : ((s.hub.custody hand asked none).beside lost).Sound size) :
    s.hub.Reports size hand asked none lost (s.send d).2.hub := by
  rcases send_cases d s with same | ⟨r, badge, labels, relay, sent⟩
  · rw [same]
    exact Hub.reports_none sound
  · have deals := @send_deals hand asked d s
    obtain ⟨living, -⟩ := @sendAs_deals hand asked badge d r s relay
    have told : (s.send d).2.hub.custody hand asked none = answered badge d r.serial (s.sendAs badge d r) hand asked := by
      rw [sent]
      exact Hub.custody_passSerial _ living
    have kept : (s.send d).2.hub.bearings = (s.sendAs badge d r).2.hub.bearings := by
      rw [sent]
      exact (Hub.bearings_passSerial _).trans (Hub.bearings_record _ _ rfl)
    have outlook : (s.send d).2.hub.outlook = (s.sendAs badge d r).2.hub.outlook := by rw [sent]; rfl
    rcases sendAs_early badge d s r with ⟨failure, -, answer⟩ | ⟨k, pool, allocated, answer⟩
    · obtain ⟨level, unchanged⟩ := turned_level failure d s
      rw [answer] at kept outlook
      exact ⟨(outlook.trans level).symm, Custody.deals_sound (Custody.deals_beside lost deals) sound, [],
        kept.trans unchanged, fun _ member => absurd member List.not_mem_nil⟩
    · have lent := @Hub.lent_deal hand asked badge d (!s.power.awake) k pool r s.hub relay allocated
      have reports := reports_lent ⟨badge, d, k⟩ ⟨k, d.message badge (!s.power.awake)⟩ pool r s relay sound lent
      have numbered := (@offer_deals hand asked none ⟨k, d.message badge (!s.power.awake)⟩ (s.onHub (·.lent pool r))).2
      generalize (s.onHub (·.lent pool r)).offer ⟨k, d.message badge (!s.power.awake)⟩ = outcome at answer reports numbered
      obtain ⟨accepted, after⟩ := outcome
      obtain ⟨r', relay', same⟩ := Option.map_eq_some_iff.mp numbered
      have deal := @answer_deal hand asked badge d k (!s.power.awake) accepted after r' relay'
      rw [show r'.serial = r.serial from same] at deal
      rw [answer] at told kept outlook
      cases accepted with
      | true =>
          exact reports_answered s.hub ⟨badge, d, k⟩ after.hub _ reports ((outlook_credit badge _ after).symm.trans outlook.symm)
            (kept.trans (bearings_credit badge _ after)) (told ▸ deal)
      | false =>
          obtain ⟨level, unchanged⟩ := withdrawn_level k after
          exact reports_answered s.hub ⟨badge, d, k⟩ after.hub _ reports (outlook.trans level).symm (kept.trans unchanged)
            (told ▸ deal)

theorem reports_act (a : Action) (s : Stack) (completes : a.Completes)
    (sound : ((s.hub.custody hand asked none).beside lost).Sound size) :
    s.hub.Reports size hand asked none lost (s.act a).2.hub := by
  have relayed : ∀ f : Stack → Reply × Stack, s.hub.Reports size hand asked none lost (f s).2.hub →
      s.hub.Reports size hand asked none lost (s.ifRelay f).2.hub := fun f each =>
    s.ifRelay_keeps (fun s' => s.hub.Reports size hand asked none lost s'.hub) f (Hub.reports_none sound) each
  cases a with
  | send d => exact reports_send d s sound
  | complete r =>
      exact s.ifHandle_keeps (fun s' => s.hub.Reports size hand asked none lost s'.hub) r _ (Hub.reports_none sound)
        fun k => Hub.reports_complete k s.hub (Hub.reports_none sound)
  | shutdown => exact relayed _ (reports_shutdown s sound)
  | flush => exact relayed _ (reports_flush s sound)
  | uplink call =>
      simp only [act]
      split
      · next u _ => exact reports_uplink call u s sound
      · exact Hub.reports_none sound
  | _ => exact completes.elim

end Stack

def Bearings.after (x : Incident) (b : Bearings) : Bearings :=
  match x with
  | .move (.turn thread) => { b with thread := thread }
  | .move (.occupy i) => { b with owners := b.owners.modify i fun _ => some b.thread }
  | .move .dropRelay => { b with settings := none }
  | _ => b

theorem Bearings.after_kept (x : Incident) (b : Bearings) :
    (b.after x).registered = b.registered ∧ (b.after x).owners.length = b.owners.length ∧ (b.after x).returns = b.returns ∧
      ((b.after x).settings = b.settings ∨ (b.after x).settings = none) := by
  unfold after
  split
  · exact ⟨rfl, rfl, rfl, .inl rfl⟩
  · exact ⟨rfl, List.length_modify _ _ _, rfl, .inl rfl⟩
  · exact ⟨rfl, rfl, rfl, .inr rfl⟩
  · exact ⟨rfl, rfl, rfl, .inl rfl⟩

namespace Scene

/-- Where an incident leads. Either payloads come due on loops, or one that was due on a loop is handed back there, as
the loop takes that task up; no incident does both. -/
inductive Heading (x : Incident) (c : Scene) : Prop
  | onward (news : List Happening)
      (more : (c.meet x).stack.hub.bearings =
        { c.stack.hub.bearings.after x with returns := news ++ c.stack.hub.bearings.returns })
      (homes : ∀ y ∈ news, ∃ n badge d answer, y = .completed n (.handed (c.stack.hub.home badge.app)) ∧
        .offered n badge d answer ∈ (c.meet x).stack.hub.history)
  | returned (i n : Nat) (k : Handle) (callback : FreeCallback Action) (payload : Payload) (next : Stack)
      (takes : x = .move (.take i)) (due : c.stack.next? i = some (.job (.handBack k n callback payload), next))
      (more : (c.meet x).stack.hub.bearings =
        { c.stack.hub.bearings with returns := .freed n callback payload :: c.stack.hub.bearings.returns })

variable {size : Nat} {asked : List Parcel} {lost : Multiset (Nat × Errand)}

theorem quiet_heading (x : Incident) (c : Scene) (same : (c.meet x).stack.hub.bearings = c.stack.hub.bearings.after x) :
    Heading x c := by
  have kept := (c.stack.hub.bearings.after_kept x).2.2.1
  refine .onward [] ?_ fun y member => absurd member List.not_mem_nil
  rw [same, List.nil_append, ← kept]

theorem reports_heading (x : Incident) (c : Scene) (still : c.stack.hub.bearings.after x = c.stack.hub.bearings)
    (reports : c.stack.hub.Reports size c.hand asked none lost (c.meet x).stack.hub) : Heading x c := by
  obtain ⟨-, -, news, more, homes⟩ := reports
  refine .onward news (by rw [still]; exact more) fun y member => ?_
  obtain ⟨n, app, told, ⟨badge, d, answer, offered, rfl⟩ | ⟨b, bids, -⟩⟩ := homes y member
  · exact ⟨n, badge, d, answer, told, offered⟩
  · cases bids

theorem take_heading (i : Nat) (c : Scene) : Heading (.move (.take i)) c := by
  cases taken : c.stack.next? i with
  | none => exact quiet_heading _ c (by simp only [meet, move, take, taken]; rfl)
  | some first =>
      obtain ⟨t, next⟩ := first
      have kept := Stack.bearings_next i t c.stack next taken
      have begun : (c.meet (.move (.take i))).stack = (next.startTask i t).2.2 := by simp only [meet, move, take, taken]
      by_cases due : ∃ k n callback payload, t = .job (.handBack k n callback payload)
      · obtain ⟨k, n, callback, payload, rfl⟩ := due
        refine .returned i n k callback payload next rfl taken ?_
        rw [begun, ← kept]
        rfl
      · refine quiet_heading _ c ?_
        rw [begun, Stack.bearings_startTask i t next fun k n callback payload same => due ⟨k, n, callback, payload, same⟩]
        exact kept

theorem occupy_bearings (i : Nat) (s : Stack) :
    (s.occupy i).hub.bearings = s.hub.bearings.after (.move (.occupy i)) := by
  have owners : (s.hub.loops.modify i (·.occupy s.hub.thread)).map (·.owner) =
      (s.hub.loops.map (·.owner)).modify i fun _ => some s.hub.thread := by
    refine List.ext_getElem? fun j => ?_
    simp only [List.getElem?_map, List.getElem?_modify]
    cases s.hub.loops[j]? with
    | none => rfl
    | some l =>
        by_cases here : i = j
        · simp only [here, if_true]
          rfl
        · simp only [here, if_false]
          rfl
  simp only [Stack.occupy, Stack.modifyLoop, Stack.onHub, Hub.modifyLoop, Hub.bearings, owners]
  rfl

theorem meet_heading (x : Incident) (c : Scene) (sound : ((c.custody asked).beside lost).Sound size) : Heading x c := by
  cases x with
  | dropLoop i => exact quiet_heading _ c (c.stack.bearings_dropLoop i)
  | move m =>
      cases m with
      | act a =>
          by_cases completes : a.Completes
          · exact reports_heading _ c rfl (c.stack.reports_act a completes sound)
          · exact quiet_heading _ c (c.stack.bearings_act a completes)
      | haul => exact reports_heading _ c rfl (c.stack.reports_haul sound)
      | turn | note | tell => exact quiet_heading _ c rfl
      | occupy i => exact quiet_heading _ c (occupy_bearings i c.stack)
      | take i => exact take_heading i c
      | finish place =>
          refine quiet_heading _ c ?_
          simp only [meet, move, finish]
          split
          · rfl
          · next i rest _ => exact c.stack.bearings_finishTask i rest
      | shut i | clearRoster i => exact quiet_heading _ c (Hub.bearings_modify c.stack.hub i _ fun _ => rfl)
      | quit i place =>
          refine quiet_heading _ c ?_
          obtain ⟨journal, calls, left⟩ := Stack.quit_cases i place c.stack
          simp only [meet, move, onStack, left]
          exact Hub.bearings_modify c.stack.hub i (·.dismiss place) fun _ => rfl
      | drop i =>
          refine quiet_heading _ c ?_
          simp only [meet, move]
          split
          · exact c.stack.bearings_dropTask i
          · rfl
      | detach i =>
          refine quiet_heading _ c ?_
          simp only [meet, move]
          split
          · exact Hub.bearings_modify c.stack.hub i _ fun _ => rfl
          · rfl
      | dropRelay => exact quiet_heading _ c (Hub.bearings_dropRelay c.stack.hub)

structure Keeps (b b' : Bearings) : Prop where
  registered : b'.registered = b.registered
  loops : b'.owners.length = b.owners.length
  settings : b'.settings = b.settings ∨ b'.settings = none

theorem keeps_trans (b b' b'' : Bearings) (first : Keeps b b') (later : Keeps b' b'') : Keeps b b'' :=
  ⟨later.registered.trans first.registered, later.loops.trans first.loops,
    later.settings.elim (fun same => first.settings.imp same.trans same.trans) .inr⟩

theorem meet_keeps (x : Incident) (c : Scene) (heading : Heading x c) :
    Keeps c.stack.hub.bearings (c.meet x).stack.hub.bearings := by
  cases heading with
  | onward news more homes =>
      obtain ⟨registered, loops, -, settings⟩ := c.stack.hub.bearings.after_kept x
      rw [more]
      exact ⟨registered, loops, settings⟩
  | returned i n k callback payload next takes due more =>
      rw [more]
      exact ⟨rfl, rfl, .inl rfl⟩

theorem opening_loops (size : Nat) (c : Scene) (opening : c.Opening size) :
    0 < c.stack.hub.registered ∧ c.stack.hub.loops ≠ [] ∧ c.stack.hub.thread = mainThread := by
  obtain ⟨⟨b, -, built⟩, -⟩ := opening
  unfold Blueprint.build at built
  split at built
  · cases built
  · cases built
  · split at built
    · cases built
    · next occupied =>
        split at built
        · cases built
        · rw [← Except.ok.inj built]
          refine ⟨Nat.pos_of_ne_zero fun none => occupied ?_, fun none => occupied ?_, rfl⟩
          · simp only at none
            rw [none, List.take_zero, List.isEmpty_nil]
          · rw [List.map_eq_nil_iff.mp none, List.take_nil, List.isEmpty_nil]

section Runs

variable (size) (c : Scene) (opening : c.Opening size)

include opening

theorem undergo_heading (before : List Incident) (x : Incident) (honest : ∀ y ∈ before, y.Honest) :
    Heading x (c.undergo before) := by
  obtain ⟨asked, lost, sound⟩ := undergo_sound size before c opening honest
  exact meet_heading x (c.undergo before) sound

theorem undergo_keeps (incidents : List Incident) (honest : ∀ x ∈ incidents, x.Honest) :
    Keeps c.stack.hub.bearings (c.undergo incidents).stack.hub.bearings := by
  induction incidents using List.reverseRecOn with
  | nil => exact ⟨rfl, rfl, .inl rfl⟩
  | append_singleton before x ih =>
      obtain ⟨earlier, -⟩ := List.forall_mem_append.mp honest
      rw [undergo_append]
      exact keeps_trans _ _ _ (ih earlier) (meet_keeps x _ (undergo_heading size c opening before x earlier))

end Runs

end Scene

end HubRelay
