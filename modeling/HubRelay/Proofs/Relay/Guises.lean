import HubRelay.Proofs.Loop.Weights

/-! Stacks that differ only in what was counted of completions, and in whether the link reports them twice. Whatever
is called answers alike on all of them and leaves them as they differed, as long as nothing completes meanwhile. -/

set_option autoImplicit false

namespace HubRelay

-- What a completion counts, at the link and at the relay, and how often the link reports it.
structure Guise where
  duplicates : Bool
  transmitted : Nat
  failed : Nat
  completions : Nat
  duplicateCompletions : Nat

namespace Guise

def tally (g : Guise) (t : RelayTally) : RelayTally :=
  { t with completions := g.completions, duplicateCompletions := g.duplicateCompletions }

def uplink (g : Guise) (u : Uplink) : Uplink :=
  { u with
    settings := { u.settings with duplicates := g.duplicates }
    tally := { u.tally with transmitted := g.transmitted, failed := g.failed } }

def link (g : Guise) : Link → Link
  | .uplink u => .uplink (g.uplink u)
  | .puppet p => .puppet p

end Guise

namespace Hub

def wear (g : Guise) (h : Hub) : Hub := h.count g.tally

variable (g : Guise) (h : Hub)

@[simp] theorem loops_wear : (h.wear g).loops = h.loops := rfl

theorem relay_wear : (h.wear g).relay = h.relay.map fun r => { r with tally := g.tally r.tally } := rfl

@[simp] theorem locate_wear (app : AppId) : (h.wear g).locate app = h.locate app := rfl

@[simp] theorem live_wear (k : Handle) : (h.wear g).relay.bind (·.pool.live? k) = h.relay.bind (·.pool.live? k) := by
  rw [relay_wear, Option.bind_map]
  rfl

@[simp] theorem none_wear : (h.wear g).relay.isNone = h.relay.isNone := by rw [relay_wear, Option.isNone_map]

theorem wear_modifyLoop (i : Nat) (f : RunLoop → RunLoop) : (h.wear g).modifyLoop i f = (h.modifyLoop i f).wear g := rfl

theorem wear_note (n : Note) : (h.wear g).note n = (h.note n).wear g := rfl

theorem wear_record (x : Happening) : (h.wear g).record x = (h.record x).wear g := rfl

theorem wear_onRelay (f : Relay → Relay)
    (commutes : ∀ r : Relay, f { r with tally := g.tally r.tally } = { f r with tally := g.tally (f r).tally }) :
    (h.wear g).onRelay f = (h.onRelay f).wear g := by
  simp only [wear, count, onRelay, Option.map_map]
  congr 2
  exact funext commutes

theorem wear_count (f : RelayTally → RelayTally) (commutes : ∀ t, f (g.tally t) = g.tally (f t)) :
    (h.wear g).count f = (h.count f).wear g :=
  wear_onRelay g h _ fun r => by rw [commutes]

theorem wear_passSerial : (h.wear g).passSerial = h.passSerial.wear g := wear_onRelay g h _ fun _ => rfl

theorem wear_noteDropped (callback : Option (FreeCallback Action)) :
    (h.wear g).noteDropped callback = (h.noteDropped callback).wear g := by
  cases callback <;> rfl

theorem wear_reclaim (k : Handle) : (h.wear g).reclaim k = (h.reclaim k).wear g := by
  unfold reclaim
  rw [relay_wear]
  cases relay : h.relay with
  | none => rfl
  | some r =>
      simp only [Option.map_some]
      cases r.pool.release k with
      | error failure => rfl
      | ok released => exact wear_noteDropped g { h with relay := some { r with pool := released.2 } } _

theorem wear_discard (e : Event) : (h.wear g).discard e = (h.discard e).wear g := by
  unfold discard
  split
  · rfl
  · rfl
  · exact wear_reclaim g h _

theorem wear_discardTask (t : Task) : (h.wear g).discardTask t = (h.discardTask t).wear g := by
  unfold discardTask
  split <;> first | exact wear_discard g h _ | rfl

theorem wear_dropRelay : (h.wear g).dropRelay = (h.dropRelay.1, h.dropRelay.2.wear g) := by
  have dropped : ∀ (callbacks : List (Option (FreeCallback Action))) (h : Hub),
      callbacks.foldl (fun h c => h.noteDropped c) (h.wear g) = (callbacks.foldl (fun h c => h.noteDropped c) h).wear g := by
    intro callbacks
    induction callbacks with
    | nil => exact fun _ => rfl
    | cons c rest ih =>
        intro h
        rw [List.foldl_cons, wear_noteDropped, ih, List.foldl_cons]
  unfold dropRelay
  rw [relay_wear]
  cases h.relay with
  | none => rfl
  | some r => exact congrArg (Prod.mk true) (dropped _ { h with relay := none })

theorem wear_enqueue (i : Nat) (t : Task) : (h.wear g).enqueue i t = (h.enqueue i t).map (·.wear g) := by
  simp only [enqueue, loops_wear]
  cases h.loops[i]? with
  | none => rfl
  | some l =>
      simp only
      cases l.enqueue t <;> rfl

theorem wear_attempt (k : Handle) (parcel : Parcel) :
    (h.wear g).attempt k parcel = ((h.attempt k parcel).1, (h.attempt k parcel).2.wear g) := by
  simp only [attempt, locate_wear]
  cases h.locate parcel.message.app with
  | none => rfl
  | some place =>
      simp only [wear_enqueue]
      cases h.enqueue place.1 (.event (parcel.event k place.2.inst)) with
      | ok next => rfl
      | error failure => simp only [Except.map, wear_discard]

theorem wear_putOff (k : Handle) (n : Nat) : (h.wear g).putOff k n = ((h.putOff k n).1, (h.putOff k n).2.wear g) := by
  simp only [putOff, wear_enqueue]
  cases h.enqueue 0 (.job (.retry k n)) with
  | ok next => rfl
  | error failure => simp only [Except.map, wear_reclaim]

theorem wear_route (a : Arrival) (r : Relay) :
    (h.wear g).route a { r with tally := g.tally r.tally } = ((h.route a r).1, (h.route a r).2.wear g) := by
  unfold route
  split
  · rfl
  · split
    · rfl
    · simp only
      cases r.pool.allocate ⟨a.message, none, r.serial⟩ with
      | none => rfl
      | some taken =>
          obtain ⟨k, pool⟩ := taken
          simp only
          generalize worn : attempt k ⟨a.message, none, r.serial⟩ _ = x
          generalize bare : attempt k ⟨a.message, none, r.serial⟩ _ = y
          cases worn.symm.trans (wear_attempt g (h.lent pool r) k ⟨a.message, none, r.serial⟩)
          rw [show (h.lent pool r).attempt k ⟨a.message, none, r.serial⟩ = y from bare]
          obtain ⟨outcome, after⟩ := y
          cases outcome with
          | posted => rfl
          | refused => rfl
          | unknown => exact wear_putOff g after k r.serial

theorem wear_receive (a : Arrival) :
    (h.wear g).receive a = (h.receive a).map fun x => (x.1, x.2.wear g) := by
  unfold receive
  rw [relay_wear]
  cases h.relay with
  | none => rfl
  | some r =>
      simp only [Option.map_some, wear_route]
      rw [wear_count g _ _ (fun t => by cases (h.route a r).1 <;> rfl), wear_record, wear_passSerial]

theorem wear_retry (k : Handle) : (h.wear g).retry k = ((h.retry k).1, (h.retry k).2.wear g) := by
  unfold retry
  rw [live_wear]
  cases h.relay.bind (·.pool.live? k) with
  | none => rfl
  | some parcel =>
      simp only [wear_attempt]
      rcases h.attempt k parcel with ⟨outcome, after⟩
      cases outcome with
      | posted => simp only [wear_count g after RelayTally.countDeferredDelivered fun _ => rfl]
      | unknown => simp only [wear_count g after RelayTally.countUnknown fun _ => rfl, wear_reclaim, wear_record]
      | refused => rfl

theorem requestLoad_queued (i : Nat) (app : AppId) (permissions : Permissions) (program : Program Action) (l : RunLoop)
    (place : h.loops[i]? = some l) :
    h.requestLoad i app permissions program =
      (((h.issued i app permissions l).enqueue i (.load (h.badgeFor app permissions l) program)).map fun _ => l.issue.1,
        ((h.issued i app permissions l).enqueue i (.load (h.badgeFor app permissions l) program)).toOption.getD
          (h.issued i app permissions l)) := by
  simp only [requestLoad, place]
  cases queued : (h.issued i app permissions l).enqueue i (.load (h.badgeFor app permissions l) program) with
  | ok next =>
      split
      · next other same => cases queued.symm.trans same; rfl
      · next failure same => cases queued.symm.trans same
  | error failure =>
      split
      · next other same => cases queued.symm.trans same
      · next other same => cases queued.symm.trans same; rfl

theorem wear_requestLoad (i : Nat) (app : AppId) (permissions : Permissions) (program : Program Action) :
    (h.wear g).requestLoad i app permissions program =
      ((h.requestLoad i app permissions program).1, (h.requestLoad i app permissions program).2.wear g) := by
  cases place : h.loops[i]? with
  | none => simp only [requestLoad, loops_wear, place]
  | some l =>
      have issued : (h.wear g).issued i app permissions l = (h.issued i app permissions l).wear g := rfl
      have same : (h.wear g).badgeFor app permissions l = h.badgeFor app permissions l := rfl
      rw [requestLoad_queued h i app permissions program l place,
        requestLoad_queued (h.wear g) i app permissions program l place, issued, same, wear_enqueue]
      cases (h.issued i app permissions l).enqueue i (.load (h.badgeFor app permissions l) program) <;> rfl

theorem wear_requestLoads (i count : Nat) (app : AppId) (last : Reply) :
    (h.wear g).requestLoads i count app last =
      ((h.requestLoads i count app last).1, (h.requestLoads i count app last).2.wear g) := by
  induction count generalizing app last h with
  | zero => rfl
  | succ count ih => simp only [requestLoads, wear_requestLoad, ih]

end Hub

namespace Uplink

variable (g : Guise) (u : Uplink)

theorem wear_send (m : Outgoing) : (g.uplink u).send m = ((u.send m).1, g.uplink (u.send m).2) := by
  have same : (g.uplink u).send m =
      if u.shutDown || u.settings.capacity ≤ u.queue.length then
        (false, g.uplink { u with tally := { u.tally with rejected := u.tally.rejected + 1 } })
      else
        (true, g.uplink { u with queue := u.queue.push m, tally := { u.tally with accepted := u.tally.accepted + 1 } }) := rfl
  rw [same, send]
  split <;> rfl

theorem wear_start : (g.uplink u).start = u.start.map g.uplink := by
  have same : (g.uplink u).start =
      if u.running then .error .alreadyStarted
      else if u.shutDown then .error .shutDown
      else .ok (g.uplink { u with running := true }) := rfl
  rw [same, start]
  split
  · rfl
  · split <;> rfl

end Uplink

namespace Stack

def wear (g : Guise) (s : Stack) : Stack := { s with hub := s.hub.wear g, link := g.link s.link }

variable (g : Guise) (s : Stack)

@[simp] theorem hub_wear : (s.wear g).hub = s.hub.wear g := rfl

@[simp] theorem link_wear : (s.wear g).link = g.link s.link := rfl

theorem wear_onHub (f : Hub → Hub) (same : f (s.hub.wear g) = (f s.hub).wear g) :
    (s.wear g).onHub f = (s.onHub f).wear g := by
  simp only [onHub, wear, same]

theorem wear_modifyLoop (i : Nat) (f : RunLoop → RunLoop) : (s.wear g).modifyLoop i f = (s.modifyLoop i f).wear g := rfl

theorem wear_note (n : Note) : (s.wear g).note n = (s.note n).wear g := rfl

theorem wear_handle (r : HandleRef) : (s.wear g).handle? r = s.handle? r := by
  cases r <;> rfl

theorem wear_enqueue (i : Nat) (t : Task) : (s.wear g).enqueue i t = (s.enqueue i t).map (·.wear g) := by
  simp only [enqueue, hub_wear, Hub.wear_enqueue]
  cases s.hub.enqueue i t <;> rfl

theorem wear_reject (failure : SendFailure) (payload : Payload) :
    (s.wear g).reject failure payload = ((s.reject failure payload).1, (s.reject failure payload).2.wear g) := by
  have counted : (s.hub.wear g).count (RelayTally.countRejection failure) =
      (s.hub.count (RelayTally.countRejection failure)).wear g :=
    Hub.wear_count g s.hub _ fun t => by cases failure <;> rfl
  simp only [reject, wear_onHub g s _ counted]

theorem wear_withdraw (k : Handle) : (s.wear g).withdraw k = ((s.withdraw k).1, (s.withdraw k).2.wear g) := by
  have same : (s.wear g).onHub (·.reclaim k) = (s.onHub (·.reclaim k)).wear g :=
    wear_onHub g s _ (Hub.wear_reclaim g s.hub k)
  simp only [withdraw, hub_wear, Hub.live_wear, same]
  cases s.hub.relay.bind (·.pool.live? k) <;> rfl

theorem wear_credit (badge : Badge) (woke : Bool) : (s.wear g).credit badge woke = (s.credit badge woke).wear g := by
  simp only [credit, hub_wear, Hub.relay_wear]
  cases s.hub.relay <;> rfl

theorem wear_offer (m : Outgoing) (linked : s.Linked) : (s.wear g).offer m = ((s.offer m).1, (s.offer m).2.wear g) := by
  obtain ⟨u, link⟩ := linked
  simp only [offer, link_wear, link, Guise.link, Uplink.wear_send]
  rfl

theorem wear_sendAs (badge : Badge) (d : Dispatch Action) (r : Relay) (linked : s.Linked) :
    (s.wear g).sendAs badge d { r with tally := g.tally r.tally } =
      ((s.sendAs badge d r).1, (s.sendAs badge d r).2.wear g) := by
  have refused : ∀ failure, ((s.wear g).onHub (·.noteDropped d.free)).reject failure d.payload =
      (((s.onHub (·.noteDropped d.free)).reject failure d.payload).1,
        ((s.onHub (·.noteDropped d.free)).reject failure d.payload).2.wear g) := fun failure => by
    rw [wear_onHub g s _ (Hub.wear_noteDropped g s.hub d.free), wear_reject]
  unfold sendAs
  simp only [refused]
  split
  · rfl
  · split
    · rfl
    · have awake : (s.wear g).power = s.power := rfl
      simp only [awake]
      cases r.pool.allocate ⟨d.message badge (!s.power.awake), d.free, r.serial⟩ with
      | none => rfl
      | some taken =>
          obtain ⟨k, pool⟩ := taken
          simp only
          generalize worn : offer ⟨k, d.message badge (!s.power.awake)⟩ _ = x
          generalize bare : offer ⟨k, d.message badge (!s.power.awake)⟩ _ = y
          cases worn.symm.trans (wear_offer g (s.onHub fun h => { h with relay := some { r with pool := pool } })
            ⟨k, d.message badge (!s.power.awake)⟩ linked)
          rw [bare]
          obtain ⟨accepted, after⟩ := y
          cases accepted with
          | true => exact congrArg (Prod.mk (Reply.sent k)) (wear_credit g after badge _)
          | false => simp only [wear_withdraw, wear_reject]

theorem wear_send (d : Dispatch Action) (linked : s.Linked) : (s.wear g).send d = ((s.send d).1, (s.send d).2.wear g) := by
  unfold send
  simp only [hub_wear, Hub.relay_wear]
  cases s.hub.relay with
  | none => rfl
  | some r =>
      have named : (s.wear g).names = s.names := rfl
      simp only [Option.map_some, named]
      cases s.names.lookup d.sender with
      | none => rfl
      | some badge =>
          simp only [wear_sendAs g s badge d r linked]
          rcases s.sendAs badge d r with ⟨answer, after⟩
          have passed : (after.wear g).onHub (fun h => (h.record (.offered r.serial badge d answer)).passSerial) =
              (after.onHub fun h => (h.record (.offered r.serial badge d answer)).passSerial).wear g :=
            wear_onHub g after _ (Hub.wear_passSerial g (after.hub.record _))
          simp only [passed]
          cases answer with
          | sent k =>
              simp only
              split
              · rfl
              · cases d.label <;> rfl
          | _ => rfl

end Stack

def Action.Reports : Action → Prop
  | .complete _ | .shutdown | .flush | .uplink (.pump _) => True
  | _ => False

namespace Stack

variable (g : Guise) (s : Stack)

theorem wear_ifLoop (i : Nat) (f f' : RunLoop → Reply × Stack) (each : ∀ l, f' l = ((f l).1, (f l).2.wear g)) :
    (s.wear g).ifLoop i f' = ((s.ifLoop i f).1, (s.ifLoop i f).2.wear g) := by
  simp only [ifLoop, hub_wear, Hub.loops_wear]
  cases s.hub.loops[i]? with
  | none => rfl
  | some l => exact each l

theorem wear_ifRelay (f : Stack → Reply × Stack) (same : f (s.wear g) = ((f s).1, (f s).2.wear g)) :
    (s.wear g).ifRelay f = ((s.ifRelay f).1, (s.ifRelay f).2.wear g) := by
  simp only [ifRelay, hub_wear, Hub.none_wear]
  split
  · rfl
  · exact same

theorem wear_ifHandle (r : HandleRef) (f : Handle → Stack → Reply × Stack)
    (each : ∀ k, f k (s.wear g) = ((f k s).1, (f k s).2.wear g)) :
    (s.wear g).ifHandle r f = ((s.ifHandle r f).1, (s.ifHandle r f).2.wear g) := by
  refine wear_ifRelay g s _ ?_
  rw [wear_handle]
  cases s.handle? r with
  | none => rfl
  | some k => exact each k

theorem wear_endCycle : (s.wear g).endCycle = s.endCycle.wear g :=
  wear_onHub g s _ (Hub.wear_onRelay g s.hub _ fun _ => rfl)

theorem wear_onUplink (c : UplinkCall) (u : Uplink) (quiet : ¬(Action.uplink c).Reports) :
    (s.wear g).onUplink c (g.uplink u) = ((s.onUplink c u).1, (s.onUplink c u).2.wear g) := by
  cases c with
  | start =>
      simp only [onUplink, Uplink.wear_start]
      cases u.start <;> rfl
  | pump limit => exact absurd trivial quiet
  | pause | resume | spoil | takeReceived => rfl

theorem wear_act (a : Action) (quiet : ¬a.Reports) (linked : s.Linked) :
    (s.wear g).act a = ((s.act a).1, (s.act a).2.wear g) := by
  cases a with
  | load i app permissions program =>
      exact wear_ifLoop g s i _ _ fun _ => by simp only [hub_wear, Hub.wear_requestLoad]; rfl
  | loadMany i app count =>
      exact wear_ifLoop g s i _ _ fun _ => by simp only [hub_wear, Hub.wear_requestLoads]; rfl
  | unload i app =>
      refine wear_ifLoop g s i _ _ fun _ => ?_
      rw [wear_enqueue]
      cases s.enqueue i (.unload app) <;> rfl
  | find i app => exact wear_ifLoop g s i _ _ fun _ => rfl
  | grab i app name =>
      refine wear_ifLoop g s i _ _ fun l => ?_
      cases l.badge? app with
      | none => rfl
      | some badge => cases name <;> rfl
  | post i event =>
      refine wear_ifLoop g s i _ _ fun _ => ?_
      rw [wear_enqueue]
      cases s.enqueue i (.event event) with
      | ok next => rfl
      | error failure => exact congrArg (Prod.mk _) (wear_onHub g s _ (Hub.wear_discard g s.hub event))
  | defer i label script =>
      refine wear_ifLoop g s i _ _ fun _ => ?_
      rw [wear_enqueue]
      cases s.enqueue i (.job (.user label script)) <;> rfl
  | stop i elsewhere => exact wear_ifLoop g s i _ _ fun _ => rfl
  | send dispatch => exact wear_send g s dispatch linked
  | retry r =>
      refine wear_ifHandle g s r _ fun k => ?_
      simp only [hub_wear, Hub.wear_retry]
      rfl
  | deliver arrival viaLink =>
      simp only [act, hub_wear, Hub.wear_receive]
      cases s.hub.receive arrival with
      | some routed => rfl
      | none => cases viaLink <;> rfl
  | resetClaim => exact wear_ifRelay g s (fun s => (.done, s.endCycle)) (by rw [wear_endCycle])
  | suspend =>
      have power : (s.wear g).power = s.power := rfl
      simp only [act, power]
      split
      · exact congrArg (Prod.mk _) (wear_endCycle g { s with power := s.power.suspend.2 })
      · rfl
  | uplink call =>
      obtain ⟨u, link⟩ := linked
      simp only [act, link_wear, link, Guise.link]
      exact wear_onUplink g s call u quiet
  | puppet call =>
      obtain ⟨u, link⟩ := linked
      simp only [act, link_wear, link, Guise.link]
  | malformed toRelay =>
      cases toRelay with
      | false => rfl
      | true => exact wear_ifRelay g s _ rfl
  | enrol name app inst permissions => rfl
  | wake => rfl
  | complete r => exact absurd trivial quiet
  | shutdown => exact absurd trivial quiet
  | flush => exact absurd trivial quiet

theorem wear_loop (i : Nat) : (s.wear g).loop? i = s.loop? i := rfl

theorem wear_next (i : Nat) : (s.wear g).next? i = (s.next? i).map fun x => (x.1, x.2.wear g) := by
  simp only [next?, wear_loop, Option.map_map]
  rfl

theorem wear_startLoad (i : Nat) (badge : Badge) (program : Program Action) :
    (s.wear g).startLoad i badge program =
      ((s.startLoad i badge program).1, (s.startLoad i badge program).2.1, (s.startLoad i badge program).2.2.wear g) := by
  have noted : (s.wear g).noteStart i badge program = (s.noteStart i badge program).wear g := by
    simp only [noteStart, wear_loop]
    cases s.loop? i <;> cases program <;> rfl
  simp only [startLoad, wear_loop, noted]
  cases (s.loop? i).bind (·.badge? badge.app) <;> rfl

theorem wear_startEvent (i : Nat) (e : Event) :
    (s.wear g).startEvent i e = ((s.startEvent i e).1, (s.startEvent i e).2.1, (s.startEvent i e).2.2.wear g) := by
  simp only [startEvent, wear_modifyLoop, wear_loop]
  cases ((s.modifyLoop i RunLoop.freeEvent).loop? i).bind (·.loaded? e.target) with
  | none =>
      have dropped := wear_onHub g (((s.modifyLoop i RunLoop.freeEvent).modifyLoop i RunLoop.countDropped).onHub
        (·.call i (.drop e))) (fun h => (h.record (.missed i e)).discard e) (Hub.wear_discard g (Hub.record _ _) e)
      exact congrArg (Prod.mk _ <| Prod.mk _ ·) dropped
  | some a =>
      simp only
      cases a.program <;> rfl

theorem wear_noteEnd (a : Loaded) : (s.wear g).noteEnd a = (s.noteEnd a).wear g := by
  unfold noteEnd
  split <;> rfl

theorem wear_startUnload (i : Nat) (app : AppId) :
    (s.wear g).startUnload i app =
      ((s.startUnload i app).1, (s.startUnload i app).2.1, (s.startUnload i app).2.2.wear g) := by
  simp only [startUnload, wear_loop, wear_modifyLoop]
  cases (s.loop? i).bind (·.badge? app) with
  | none => rfl
  | some badge =>
      simp only
      cases ((s.modifyLoop i (·.strike app)).loop? i).bind (·.loaded? badge.inst) with
      | none => rfl
      | some a =>
          simp only [wear_noteEnd]
          rfl

theorem wear_startJob (j : Job) :
    (s.wear g).startJob j = ((s.startJob j).1, (s.startJob j).2.1, (s.startJob j).2.2.wear g) := by
  cases j with
  | user label script => rfl
  | handBack k n callback payload => rfl
  | retry k n =>
      have retried : (s.wear g).onHub (fun h => (h.retry k).2) = (s.onHub fun h => (h.retry k).2).wear g :=
        wear_onHub g s _ (congrArg Prod.snd (Hub.wear_retry g s.hub k))
      simp only [startJob, retried]

theorem wear_startTask (i : Nat) (t : Task) :
    (s.wear g).startTask i t = ((s.startTask i t).1, (s.startTask i t).2.1, (s.startTask i t).2.2.wear g) := by
  cases t with
  | event e => exact wear_startEvent g s i e
  | job j => exact wear_startJob g s j
  | load badge program => exact wear_startLoad g s i badge program
  | unload app => exact wear_startUnload g s i app
  | stop => rfl

theorem wear_finishTask (i : Nat) (rest : Epilogue) : (s.wear g).finishTask i rest = (s.finishTask i rest).wear g := by
  cases rest with
  | nothing => rfl
  | install badge program =>
      simp only [finishTask]
      split <;> rfl
  | consume e => exact wear_onHub g (s.modifyLoop i RunLoop.countDelivered) _ (Hub.wear_discard g _ e)
  | countJob => rfl
  | giveBack k =>
      have freed : (s.wear g).onHub (fun h => (h.count RelayTally.countInvoked).reclaim k) =
          (s.onHub fun h => (h.count RelayTally.countInvoked).reclaim k).wear g := by
        refine wear_onHub g s _ ?_
        rw [Hub.wear_count g s.hub RelayTally.countInvoked fun _ => rfl, Hub.wear_reclaim]
      simp only [finishTask, freed, wear_modifyLoop]

theorem wear_dropEvent (i : Nat) (e : Event) : (s.wear g).dropEvent i e = (s.dropEvent i e).wear g :=
  wear_onHub g ((s.modifyLoop i fun l => l.freeEvent.countDropped).onHub (·.call i (.drop e)))
    (fun h => (h.record (.drained i e)).discard e) (Hub.wear_discard g (Hub.record _ _) e)

theorem wear_quit (i place : Nat) :
    (s.wear g).quit i place = ((s.quit i place).1, (s.quit i place).2.wear g) := by
  have left : (s.wear g).leaving i = s.leaving i := rfl
  simp only [quit, wear_modifyLoop, left]
  cases (s.leaving i)[place]? with
  | none => rfl
  | some a =>
      simp only [wear_noteEnd]
      rfl

theorem wear_dropTask (i : Nat) : (s.wear g).dropTask i = (s.dropTask i).wear g := by
  unfold dropTask
  rw [wear_next]
  cases s.next? i with
  | none => rfl
  | some taken =>
      obtain ⟨t, next⟩ := taken
      cases t with
      | event e => exact wear_dropEvent g next i e
      | job | load | unload | stop => rfl

theorem wear_dropLoop (i : Nat) : (s.wear g).dropLoop i = (s.dropLoop i).wear g := by
  have discarded : ∀ (queued : List Task) (h : Hub),
      queued.foldl (fun h t => h.discardTask t) (h.wear g) = (queued.foldl (fun h t => h.discardTask t) h).wear g := by
    intro queued
    induction queued with
    | nil => exact fun _ => rfl
    | cons t rest ih =>
        intro h
        rw [List.foldl_cons, Hub.wear_discardTask, ih, List.foldl_cons]
  simp only [dropLoop, wear_loop, wear_modifyLoop]
  exact wear_onHub g _ _ (discarded _ _)

theorem link_noteEnd (a : Loaded) (s : Stack) : (s.noteEnd a).link = s.link := by
  unfold noteEnd
  split <;> rfl

theorem link_startTask (i : Nat) (task : Task) (s : Stack) : (s.startTask i task).2.2.link = s.link := by
  cases task with
  | event e =>
      simp only [startTask, startEvent]
      split
      · rfl
      · next badge program _ => cases program <;> rfl
  | job j => cases j <;> rfl
  | load badge program =>
      simp only [startTask, startLoad]
      split
      · rfl
      · unfold noteStart
        split <;> rfl
  | unload app =>
      simp only [startTask, startUnload]
      split
      · rfl
      · split
        · rfl
        · exact link_noteEnd _ _
  | stop => rfl

theorem link_finishTask (i : Nat) (rest : Epilogue) (s : Stack) : (s.finishTask i rest).link = s.link := by
  cases rest with
  | install badge program =>
      simp only [finishTask]
      split <;> rfl
  | _ => rfl

theorem link_dropTask (i : Nat) (s : Stack) : (s.dropTask i).link = s.link := by
  unfold dropTask
  split
  · rfl
  · rfl
  · next e next taken => exact (next_outlook s next i _ taken).2.1
  · next task next _ _ taken => exact (next_outlook s next i _ taken).2.1

theorem link_quit (i place : Nat) (s : Stack) : (s.quit i place).2.link = s.link := by
  obtain ⟨journal, calls, left⟩ := quit_cases i place s
  rw [left]
  rfl

theorem weight_wear (g : Guise) (s : Stack) : (s.wear g).weight = s.weight := Hub.weight_count s.hub g.tally

end Stack

end HubRelay
