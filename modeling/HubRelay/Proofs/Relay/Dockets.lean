import HubRelay.Proofs.Relay.CompletionReach
import HubRelay.Proofs.Relay.HostEvents
import HubRelay.Proofs.Relay.Losses

/-! The order of what is to be done for messages: those that wait in the link, each loop's own queue, and what was told
of them so far. Few operations change it, but for messages that are no longer to be reported and loops that let go. -/

set_option autoImplicit false

namespace HubRelay

def Happening.moves : Happening → Bool
  | .offered _ _ _ (.sent _) => true
  | .arrived _ _ .delivered | .arrived _ _ .deferred => true
  | .completed _ _ | .freed _ _ _ | .posted _ _ _ => true
  | .passed _ _ e => e.serial?.isSome
  | _ => false

structure Docket where
  -- The number of the next message, while there is a relay.
  serial : Option Nat
  -- The numbers of the live messages that wait in the link, the next one first.
  waiting : List Nat
  work : Nat → List Errand
  attached : Nat → Bool
  -- The latest first.
  told : List Happening

namespace Docket

-- Nothing gets on, though messages may lose their slots, loops their queues' ends, and the hub its relay.
structure Eases (d d' : Docket) : Prop where
  serial : d'.serial = d.serial ∨ d'.serial = none
  waiting : d'.waiting.Sublist d.waiting
  work : d'.work = d.work
  attached : ∀ i, d'.attached i = true → d.attached i = true
  told : d'.told = d.told

theorem Eases.trans {d d' d'' : Docket} (first : d.Eases d') (later : d'.Eases d'') : d.Eases d'' where
  serial := by
    rcases later.serial with same | gone
    · rw [same]
      exact first.serial
    · exact .inr gone
  waiting := later.waiting.trans first.waiting
  work := later.work.trans first.work
  attached i taking := first.attached i (later.attached i taking)
  told := later.told.trans first.told

end Docket

namespace Hub

def number? (k : Handle) (h : Hub) : Option Nat := (h.live? k).map (·.serial)

def work (h : Hub) (i : Nat) : List Errand := (h.loops[i]?.map fun l => l.queue.toList.filterMap Task.errand?).getD []

def attached (h : Hub) (i : Nat) : Bool := (h.loops[i]?.map (·.attached)).getD false

def docket (handles : List Handle) (h : Hub) : Docket where
  serial := h.relay.map (·.serial)
  waiting := handles.filterMap (h.number? ·)
  work := h.work
  attached := h.attached
  told := h.history.filter Happening.moves

def Eases (h h' : Hub) : Prop := ∀ handles, (h.docket handles).Eases (h'.docket handles)

theorem eases_refl (h : Hub) : h.Eases h := fun _ => ⟨.inl rfl, .refl _, rfl, fun _ taking => taking, rfl⟩

theorem eases_trans {h h' h'' : Hub} (first : h.Eases h') (later : h'.Eases h'') : h.Eases h'' :=
  fun handles => (first handles).trans (later handles)

theorem number_relay (h : Hub) (r : Relay) (relay : h.relay = some r) (k : Handle) :
    h.number? k = (r.pool.live? k).map (·.serial) := by rw [number?, live_relay h r relay]

theorem waiting_sublist (handles : List Handle) (h h' : Hub) (within : ∀ k n, h'.number? k = some n → h.number? k = some n) :
    (h'.docket handles).waiting.Sublist (h.docket handles).waiting :=
  filterMap_sublist _ _ handles within

theorem eases_relay (h : Hub) (relay : Option Relay) (journal : Array Note)
    (serial : relay.map (·.serial) = h.relay.map (·.serial))
    (within : ∀ k n, ({ h with relay := relay, journal := journal } : Hub).number? k = some n → h.number? k = some n) :
    h.Eases { h with relay := relay, journal := journal } :=
  fun handles => ⟨.inl serial, waiting_sublist handles _ _ within, rfl, fun _ taking => taking, rfl⟩

theorem eases_onRelay (h : Hub) (f : Relay → Relay) (keeps : ∀ r, (f r).serial = r.serial ∧ (f r).pool = r.pool) :
    h.Eases (h.onRelay f) := by
  refine eases_relay h (h.relay.map f) h.journal ?_ fun k n => ?_
  · rw [Option.map_map]
    exact congrArg (Option.map · h.relay) (funext fun r => (keeps r).1)
  · simp only [number?, live?]
    cases h.relay with
    | none => exact id
    | some r =>
        rw [Option.map_some, Option.bind_some, Option.bind_some, (keeps r).2]
        exact id

theorem eases_count (h : Hub) (f : RelayTally → RelayTally) : h.Eases (h.count f) := eases_onRelay h _ fun _ => ⟨rfl, rfl⟩

theorem eases_noteDropped (h : Hub) (callback : Option (FreeCallback Action)) : h.Eases (h.noteDropped callback) := by
  obtain ⟨journal, dropped⟩ := h.noteDropped_cases callback
  rw [dropped]
  exact eases_refl h

theorem relay_reclaim (h : Hub) (k : Handle) : (h.reclaim k).relay.map (·.serial) = h.relay.map (·.serial) := by
  obtain ⟨journal, reclaimed⟩ := h.reclaim_cases k
  rw [reclaimed, Option.map_map]
  rfl

theorem number_reclaim (h : Hub) (k k' : Handle) : (h.reclaim k).number? k' = if k' = k then none else h.number? k' := by
  obtain ⟨journal, reclaimed⟩ := h.reclaim_cases k
  rw [reclaimed]
  simp only [number?, live?]
  cases h.relay with
  | none => exact (ite_self none).symm
  | some r =>
      simp only [Option.map_some, Option.bind_some, SlotPool.reclaimed_live]
      split <;> rfl

theorem eases_reclaim (h : Hub) (k : Handle) : h.Eases (h.reclaim k) := by
  have number := number_reclaim h k
  obtain ⟨journal, reclaimed⟩ := h.reclaim_cases k
  rw [reclaimed] at number ⊢
  refine eases_relay h _ journal (by rw [Option.map_map]; rfl) fun k' n lives => ?_
  rw [number] at lives
  split at lives
  · cases lives
  · exact lives

theorem eases_discard (h : Hub) (e : Event) : h.Eases (h.discard e) := by
  unfold discard
  split
  · exact eases_refl h
  · exact eases_refl h
  · exact eases_reclaim h _

theorem eases_discarded (tasks : List Task) (h : Hub) : h.Eases (tasks.foldl (fun h t => h.discardTask t) h) := by
  induction tasks generalizing h with
  | nil => exact eases_refl h
  | cons t rest ih =>
      refine eases_trans ?_ (ih (h.discardTask t))
      cases t with
      | event e => exact eases_discard h e
      | job j => cases j <;> exact eases_refl h
      | load | unload | stop => exact eases_refl h

theorem eases_dropRelay (h : Hub) : h.Eases h.dropRelay.2 := by
  obtain ⟨journal, dropped⟩ := h.dropRelay_cases
  rw [dropped]
  refine fun handles => ⟨.inr rfl, waiting_sublist handles _ _ fun k n gone => ?_, rfl, fun _ taking => taking, rfl⟩
  cases gone

theorem eases_record (h : Hub) (x : Happening) (still : x.moves = false) : h.Eases (h.record x) :=
  fun _ => ⟨.inl rfl, .refl _, rfl, fun _ taking => taking, List.filter_cons_of_neg (by rw [still]; exact Bool.false_ne_true)⟩

theorem work_set (h : Hub) (i : Nat) (l next : RunLoop) (place : h.loops[i]? = some l) :
    ({ h with loops := h.loops.set i next } : Hub).work =
      Function.update h.work i (next.queue.toList.filterMap Task.errand?) := by
  have bound := (List.getElem?_eq_some_iff.mp place).1
  funext j
  by_cases here : j = i
  · subst here
    rw [Function.update_self, work, List.getElem?_set_self bound, Option.map_some, Option.getD_some]
  · rw [Function.update_of_ne here, work, work, List.getElem?_set_ne (Ne.symm here)]

theorem attached_set (h : Hub) (i : Nat) (l next : RunLoop) (place : h.loops[i]? = some l) :
    ({ h with loops := h.loops.set i next } : Hub).attached = Function.update h.attached i next.attached := by
  have bound := (List.getElem?_eq_some_iff.mp place).1
  funext j
  by_cases here : j = i
  · subst here
    rw [Function.update_self, attached, List.getElem?_set_self bound, Option.map_some, Option.getD_some]
  · rw [Function.update_of_ne here, attached, attached, List.getElem?_set_ne (Ne.symm here)]

theorem place_work (h : Hub) (i : Nat) (l : RunLoop) (place : h.loops[i]? = some l) :
    h.work i = l.queue.toList.filterMap Task.errand? ∧ h.attached i = l.attached := by
  simp only [work, attached, place, Option.map_some, Option.getD_some, and_self]

theorem attached_kept (h : Hub) (i : Nat) (l next : RunLoop) (place : h.loops[i]? = some l) (same : next.attached = l.attached) :
    ({ h with loops := h.loops.set i next } : Hub).attached = h.attached := by
  rw [attached_set h i l next place, same, ← (place_work h i l place).2, Function.update_eq_self]

theorem eases_set (h : Hub) (i : Nat) (l next : RunLoop) (place : h.loops[i]? = some l)
    (same : next.queue.toList.filterMap Task.errand? = l.queue.toList.filterMap Task.errand?)
    (within : next.attached = true → l.attached = true) : h.Eases { h with loops := h.loops.set i next } := by
  obtain ⟨work, attached⟩ := place_work h i l place
  refine fun handles => ⟨.inl rfl, .refl _, ?_, fun j taking => ?_, rfl⟩
  · change ({ h with loops := h.loops.set i next } : Hub).work = h.work
    rw [work_set h i l next place, same, ← work, Function.update_eq_self]
  · change ({ h with loops := h.loops.set i next } : Hub).attached j = true at taking
    change h.attached j = true
    rw [attached_set h i l next place] at taking
    by_cases here : j = i
    · subst here
      rw [Function.update_self] at taking
      exact attached.trans (within taking)
    · rw [Function.update_of_ne here] at taking
      exact taking

theorem eases_modify (h : Hub) (i : Nat) (f : RunLoop → RunLoop)
    (same : ∀ l, (f l).queue.toList.filterMap Task.errand? = l.queue.toList.filterMap Task.errand?)
    (within : ∀ l, (f l).attached = true → l.attached = true) : h.Eases (h.modifyLoop i f) := by
  rcases h.modify_cases i f with ⟨-, unchanged⟩ | ⟨l, place, change⟩
  · rw [unchanged]
    exact eases_refl h
  · rw [change]
    exact eases_set h i l (f l) place (same l) (within l)

theorem eases_enqueue (h next : Hub) (i : Nat) (t : Task) (idle : t.errand? = none) (queued : h.enqueue i t = .ok next) :
    h.Eases next := by
  obtain ⟨l, after, place, taken, rfl⟩ := enqueue_cases h next i t queued
  have change := RunLoop.enqueue_cases t l after taken
  refine eases_set h i l after place ?_ fun taking => by rw [change] at taking; exact taking
  rw [change]
  simp only [Fifo.toList_push, List.filterMap_append, List.filterMap_cons_none idle, List.filterMap_nil, List.append_nil]

theorem eases_requestLoad (h : Hub) (i : Nat) (app : AppId) (permissions : Permissions) (program : Program Action) :
    h.Eases (h.requestLoad i app permissions program).2 := by
  cases place : h.loops[i]? with
  | none =>
      simp only [requestLoad, place]
      exact eases_refl h
  | some l =>
      have issued : h.Eases (h.issued i app permissions l) :=
        eases_trans (eases_set h i l l.issue.2 place rfl id) (eases_record _ _ rfl)
      rw [requestLoad_issued h i app permissions program l place]
      split
      · next next queued => exact eases_trans issued (eases_enqueue _ next i _ rfl queued)
      · exact issued

theorem eases_requestLoads (h : Hub) (i count : Nat) (app : AppId) (last : Reply) :
    h.Eases (h.requestLoads i count app last).2 := by
  induction count generalizing h app last with
  | zero => exact eases_refl h
  | succ count ih => exact eases_trans (eases_requestLoad h i app Permissions.none .inert) (ih _ _ _)

end Hub

theorem RunLoop.queue_stop (caller : Option Thread) (l : RunLoop) :
    (l.stop caller).queue.toList.filterMap Task.errand? = l.queue.toList.filterMap Task.errand? ∧
      (l.stop caller).attached = l.attached := by
  unfold stop
  split
  · exact ⟨rfl, rfl⟩
  · split
    · simp only [Fifo.toList_push, List.filterMap_append, and_true]
      exact List.append_nil _
    · exact ⟨rfl, rfl⟩

def Action.Easy : Action → Prop
  | .send _ | .complete _ | .retry _ | .deliver _ _ | .shutdown | .flush | .uplink _ => False
  | _ => True

namespace Stack

theorem eases_enqueue (s next : Stack) (i : Nat) (t : Task) (idle : t.errand? = none) (queued : s.enqueue i t = .ok next) :
    s.hub.Eases next.hub := by
  unfold enqueue at queued
  split at queued
  · next hub taken =>
      cases queued
      exact Hub.eases_enqueue s.hub hub i t idle taken
  · cases queued

theorem eases_endCycle (s : Stack) : s.hub.Eases s.endCycle.hub := Hub.eases_onRelay s.hub _ fun _ => ⟨rfl, rfl⟩

theorem eases_ifLoop (i : Nat) (f : RunLoop → Reply × Stack) (s : Stack) (each : ∀ l, s.hub.Eases (f l).2.hub) :
    s.hub.Eases (s.ifLoop i f).2.hub :=
  s.ifLoop_keeps (fun s' => s.hub.Eases s'.hub) i f (Hub.eases_refl s.hub) fun l _ => each l

theorem eases_ifRelay (f : Stack → Reply × Stack) (s : Stack) (each : s.hub.Eases (f s).2.hub) :
    s.hub.Eases (s.ifRelay f).2.hub :=
  s.ifRelay_keeps (fun s' => s.hub.Eases s'.hub) f (Hub.eases_refl s.hub) each

theorem eases_act (a : Action) (s : Stack) (easy : a.Easy) (honest : a.Honest) : s.hub.Eases (s.act a).2.hub := by
  have idle := Hub.eases_refl s.hub
  cases a with
  | send | complete | retry | deliver | shutdown | flush | uplink => exact easy.elim
  | load i app permissions program => exact eases_ifLoop i _ s fun _ => Hub.eases_requestLoad s.hub i app permissions program
  | loadMany i app count => exact eases_ifLoop i _ s fun _ => Hub.eases_requestLoads s.hub i count app .done
  | unload i app =>
      refine eases_ifLoop i _ s fun _ => ?_
      split
      · next next queued => exact eases_enqueue s next i _ rfl queued
      · exact idle
  | find i app => exact eases_ifLoop i _ s fun _ => idle
  | grab i app name =>
      refine eases_ifLoop i _ s fun _ => ?_
      split <;> exact idle
  | enrol | wake => exact idle
  | post i event =>
      refine eases_ifLoop i _ s fun _ => ?_
      rcases Hub.event_cases event with ⟨k, n, bears⟩ | ⟨-, errand, -, -⟩
      · exact absurd bears (honest k n)
      · split
        · next next queued => exact eases_enqueue s next i _ errand queued
        · exact Hub.eases_discard s.hub event
  | defer i label script =>
      refine eases_ifLoop i _ s fun _ => ?_
      split
      · next next queued => exact eases_enqueue s next i _ rfl queued
      · exact idle
  | stop i elsewhere =>
      exact eases_ifLoop i _ s fun _ => Hub.eases_modify s.hub i _ (fun l => (l.queue_stop _).1)
        fun l taking => (l.queue_stop _).2 ▸ taking
  | resetClaim => exact eases_ifRelay _ s (eases_endCycle s)
  | suspend =>
      simp only [act]
      split
      · exact eases_endCycle _
      · exact idle
  | puppet call =>
      simp only [act]
      split
      · exact idle
      · cases call <;> exact idle
  | malformed toRelay =>
      simp only [act]
      split
      · exact eases_ifRelay _ s idle
      · exact idle

theorem eases_reject (failure : SendFailure) (payload : Payload) (s : Stack) : s.hub.Eases (s.reject failure payload).2.hub :=
  Hub.eases_count s.hub _

theorem eases_modify (i : Nat) (f : RunLoop → RunLoop) (s : Stack) (queue : ∀ l, (f l).queue = l.queue)
    (attached : ∀ l, (f l).attached = l.attached) : s.hub.Eases (s.modifyLoop i f).hub :=
  Hub.eases_modify s.hub i f (fun l => by rw [queue l]) fun l taking => attached l ▸ taking

theorem eases_finishTask (i : Nat) (rest : Epilogue) (s : Stack) : s.hub.Eases (s.finishTask i rest).hub := by
  cases rest with
  | nothing => exact Hub.eases_refl s.hub
  | countJob => exact eases_modify i _ s (fun _ => rfl) fun _ => rfl
  | install badge program =>
      simp only [finishTask]
      split
      · exact eases_modify i _ s (fun _ => rfl) fun _ => rfl
      · exact Hub.eases_refl s.hub
  | consume e =>
      exact Hub.eases_trans (eases_modify i RunLoop.countDelivered s (fun _ => rfl) fun _ => rfl) (Hub.eases_discard _ e)
  | giveBack k =>
      refine Hub.eases_trans (Hub.eases_trans (Hub.eases_count s.hub RelayTally.countInvoked) (Hub.eases_reclaim _ k)) ?_
      exact Hub.eases_modify _ i RunLoop.countJob (fun _ => rfl) fun _ => id

theorem eases_missed (i : Nat) (e : Event) (f : RunLoop → RunLoop) (x : Happening) (s : Stack)
    (queue : ∀ l, (f l).queue = l.queue) (attached : ∀ l, (f l).attached = l.attached) (still : x.moves = false) :
    s.hub.Eases ((((s.modifyLoop i f).hub.call i (.drop e)).record x).discard e) := by
  have called : s.hub.Eases ((s.modifyLoop i f).hub.call i (.drop e)) := eases_modify i f s queue attached
  exact Hub.eases_trans (Hub.eases_trans called (Hub.eases_record _ x still)) (Hub.eases_discard _ e)

theorem eases_startLoad (i : Nat) (badge : Badge) (program : Program Action) (s : Stack) :
    s.hub.Eases (s.startLoad i badge program).2.2.hub := by
  unfold startLoad
  split
  · exact Hub.eases_refl s.hub
  · simp only [noteStart]
    split <;> exact Hub.eases_refl s.hub

theorem eases_startUnload (i : Nat) (app : AppId) (s : Stack) : s.hub.Eases (s.startUnload i app).2.2.hub := by
  unfold startUnload
  split
  · exact Hub.eases_refl s.hub
  · next badge _ =>
      have struck := eases_modify i (·.strike app) s (fun _ => rfl) fun _ => rfl
      simp only
      split
      · exact struck
      · have evicted := eases_modify i (·.evict badge.inst) (s.modifyLoop i (·.strike app)) (fun _ => rfl) fun _ => rfl
        unfold noteEnd
        split <;> exact Hub.eases_trans struck evicted

end Stack

end HubRelay
