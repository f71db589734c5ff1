import HubRelay.Proofs.Relay.Guises
import HubRelay.Proofs.Relay.Sessions

/-! Two stacks of which one has a link that reports every completion twice. The second report is counted and does
nothing else, so whatever is called on both, answers alike and leaves them as they differed. -/

set_option autoImplicit false

namespace HubRelay

namespace Guise

def told (live : Bool) (g : Guise) : Guise :=
  { g with
    completions := if live then g.completions + 1 else g.completions
    duplicateCompletions := if live then g.duplicateCompletions else g.duplicateCompletions + 1 }

def reported (fails live : Bool) (g : Guise) : Guise :=
  { g.told live with
    transmitted := if fails then g.transmitted else g.transmitted + 1
    failed := if fails then g.failed + 1 else g.failed
    duplicateCompletions := (g.told live).duplicateCompletions + if g.duplicates then 1 else 0 }

def echo (g : Guise) : Guise :=
  { g with duplicates := true, duplicateCompletions := g.duplicateCompletions + (g.transmitted + g.failed) }

theorem echo_told (live : Bool) (g : Guise) : g.echo.told live = (g.told live).echo := by
  cases live with
  | false => simp only [told, echo, Bool.false_eq_true, if_false, Nat.add_right_comm]
  | true => rfl

theorem echo_reported (fails live : Bool) (g : Guise) (silent : g.duplicates = false) :
    g.echo.reported fails live = (g.reported fails live).echo := by
  unfold reported
  rw [echo_told]
  cases fails <;> simp [echo, told, silent] <;> omega

end Guise

namespace Hub

open Uplink

def holds (k : Handle) (h : Hub) : Bool := (h.relay.bind (·.pool.live? k)).isSome

theorem wear_complete (g : Guise) (k : Handle) (h : Hub) :
    (h.wear g).complete k = (h.complete k).wear (g.told (h.holds k)) := by
  cases relay : h.relay with
  | none => simp only [complete, wear, count, onRelay, relay, Option.map_none]
  | some r =>
      have worn : (h.wear g).relay = some { r with tally := g.tally r.tally } := by
        rw [relay_wear, relay]
        rfl
      cases live : r.pool.live? k with
      | none =>
          have stale := SlotPool.retire_stale k r.pool live
          simp only [complete, worn, relay, stale, holds, Option.bind_some, live, Option.isSome_none]
          simp only [wear, count, onRelay, relay]
          rfl
      | some parcel =>
          have home : ∀ app, (h.wear g).home app = h.home app := fun _ => rfl
          have taken : (h.wear g).retired k { r with tally := g.tally r.tally } =
              (h.retired k r).wear (g.told true) := rfl
          rw [complete_live _ k _ parcel worn live, complete_live h k r parcel relay live, home, taken]
          simp only [holds, relay, Option.bind_some, live, Option.isSome_some]
          cases parcel.callback with
          | none => simp only [wear_reclaim, wear_record]
          | some callback =>
              simp only [wear_enqueue]
              cases (h.retired k r).enqueue (h.home parcel.message.app)
                  (.job (.handBack k parcel.serial callback parcel.message.payload)) with
              | ok next => rfl
              | error failure =>
                  simp only [Except.map, wear_note, wear_count _ _ RelayTally.countAbandoned fun _ => rfl, wear_reclaim,
                    wear_record]

theorem holds_spent (k : Handle) (h : Hub) (spent : h.Spent k) : h.holds k = false := by
  cases live : h.relay.bind (·.pool.live? k) with
  | none => rw [holds, live, Option.isSome_none]
  | some parcel =>
      obtain ⟨r, relay, here⟩ := Option.bind_eq_some_iff.mp live
      have retired := SlotPool.retire_live k r.pool parcel here
      rw [spent r relay] at retired
      cases retired

theorem spent_wear (g : Guise) (k : Handle) (h : Hub) (spent : h.Spent k) : (h.complete k).wear g = h.wear g := by
  cases relay : h.relay with
  | none => rw [complete, relay]
  | some r =>
      simp only [complete, relay, spent r relay, wear, count, onRelay, Option.map_some]
      rfl

theorem wear_report (g : Guise) (m : Outgoing) (h : Hub) :
    reportTimes complete (if g.duplicates then 2 else 1) m.handle (h.wear g) =
      (h.complete m.handle).wear { g.told (h.holds m.handle) with
        duplicateCompletions := (g.told (h.holds m.handle)).duplicateCompletions + if g.duplicates then 1 else 0 } := by
  cases twice : g.duplicates with
  | false => exact wear_complete g m.handle h
  | true =>
      have spent := (@complete_follows 0 [] h h m rfl).2.1
      simp only [if_true, reportTimes, wear_complete, holds_spent m.handle _ spent, spent_wear _ m.handle _ spent]
      rfl

end Hub

namespace Guise

def on (g : Guise) (x : Uplink × Hub) : Uplink × Hub := (g.uplink x.1, x.2.wear g)

end Guise

namespace Uplink

open Hub

def fails (m : Outgoing) (failing : Bool) : Bool := failing || m.delivery?.isNone

theorem wear_record (g : Guise) (m : Outgoing) (failing : Bool) (u : Uplink) :
    (g.uplink u).record m failing = ({ g with
      transmitted := if fails m failing then g.transmitted else g.transmitted + 1
      failed := if fails m failing then g.failed + 1 else g.failed } : Guise).uplink (u.record m failing) := by
  unfold record fails
  cases m.delivery? <;> cases failing <;> rfl

theorem wear_take (g : Guise) (u : Uplink) : (g.uplink u).take? = u.take?.map fun x => (x.1, x.2.1, g.uplink x.2.2) := by
  have same : (g.uplink u).take? = if u.paused then none else u.queue.pop?.map fun x =>
      (x.1, (0 < u.failBudget : Bool),
        g.uplink { u with
          queue := x.2
          inTransit := u.inTransit + 1
          failBudget := if 0 < u.failBudget then u.failBudget - 1 else u.failBudget }) := rfl
  rw [same, take?]
  split
  · rfl
  · rw [Option.map_map]
    rfl

theorem wear_transmit (g : Guise) (m : Outgoing) (failing : Bool) (u : Uplink) (h : Hub) :
    transmit complete m failing (g.uplink u) (h.wear g) =
      (g.reported (fails m failing) (h.holds m.handle)).on ((u.record m failing).settle, h.complete m.handle) := by
  have reports : ((g.uplink u).record m failing).reports = if g.duplicates then 2 else 1 := by
    rw [Uplink.reports, record_settings]
    rfl
  rw [transmit, reports, wear_report, wear_record]
  rfl

def Echo (x y : Uplink × Hub) : Prop :=
  ∃ (z : Uplink × Hub) (g : Guise), g.duplicates = false ∧ x = g.on z ∧ y = g.echo.on z

variable {u v : Uplink} {h k : Hub}

theorem echo_transmit (m : Outgoing) (failing : Bool) (echo : Echo (u, h) (v, k)) :
    Echo (transmit complete m failing u h) (transmit complete m failing v k) := by
  obtain ⟨z, g, silent, mine, other⟩ := echo
  cases mine
  cases other
  refine ⟨((z.1.record m failing).settle, z.2.complete m.handle), g.reported (fails m failing) (z.2.holds m.handle), silent,
    wear_transmit g m failing z.1 z.2, ?_⟩
  rw [wear_transmit, Guise.echo_reported _ _ g silent]

theorem echo_take (echo : Echo (u, h) (v, k)) :
    u.take? = none ∧ v.take? = none ∨
      ∃ m failing u' v', u.take? = some (m, failing, u') ∧ v.take? = some (m, failing, v') ∧ Echo (u', h) (v', k) := by
  obtain ⟨z, g, silent, mine, other⟩ := echo
  cases mine
  cases other
  rw [wear_take, wear_take]
  cases z.1.take? with
  | none => exact .inl ⟨rfl, rfl⟩
  | some taken => exact .inr ⟨taken.1, taken.2.1, _, _, rfl, rfl, (taken.2.2, z.2), g, silent, rfl, rfl⟩

theorem echo_pump (limit : Nat) (echo : Echo (u, h) (v, k)) :
    (pump complete limit v k).1 = (pump complete limit u h).1 ∧
      Echo (pump complete limit u h).2 (pump complete limit v k).2 := by
  induction limit generalizing u v h k with
  | zero => exact ⟨rfl, echo⟩
  | succ limit ih =>
      rw [pump, pump]
      rcases echo_take echo with ⟨mine, other⟩ | ⟨m, failing, u', v', mine, other, after⟩
      · rw [mine, other]
        exact ⟨rfl, echo⟩
      · rw [mine, other]
        obtain ⟨counts, later⟩ := ih (echo_transmit m failing after)
        exact ⟨congrArg (· + 1) counts, later⟩

theorem echo_haul (echo : Echo (u, h) (v, k)) : Echo (haul complete u h) (haul complete v k) := by
  have same : v.hauling = u.hauling ∧ v.queue.length = u.queue.length := by
    obtain ⟨z, g, -, mine, other⟩ := echo
    cases mine
    cases other
    exact ⟨rfl, rfl⟩
  rw [haul, haul, same.1, same.2]
  split
  · exact (echo_pump u.queue.length echo).2
  · exact echo

theorem echo_idle (echo : Echo (u, h) (v, k)) : v.idle = u.idle := by
  obtain ⟨z, g, -, mine, other⟩ := echo
  cases mine
  cases other
  rfl

theorem echo_failAll (messages : List Outgoing) (echo : Echo (u, h) (v, k)) :
    Echo (failAll complete messages u h) (failAll complete messages v k) := by
  induction messages generalizing u v h k with
  | nil => exact echo
  | cons m rest ih => exact ih (echo_transmit m true echo)

theorem echo_close (echo : Echo (u, h) (v, k)) :
    v.close.takeAll.1 = u.close.takeAll.1 ∧ Echo (u.close.takeAll.2, h) (v.close.takeAll.2, k) := by
  obtain ⟨z, g, silent, mine, other⟩ := echo
  cases mine
  cases other
  exact ⟨rfl, (z.1.close.takeAll.2, z.2), g, silent, rfl, rfl⟩

theorem echo_shutdown (echo : Echo (u, h) (v, k)) : Echo (shutdown complete u h) (shutdown complete v k) := by
  have same : v.shutDown = u.shutDown := by
    obtain ⟨z, g, -, mine, other⟩ := echo
    cases mine
    cases other
    rfl
  rw [shutdown, shutdown, same]
  split
  · exact echo
  · obtain ⟨left, closed⟩ :=
      @echo_close (haul complete u h).1 (haul complete v k).1 (haul complete u h).2 (haul complete v k).2 (echo_haul echo)
    simp only [flush, left]
    exact echo_failAll _ closed

end Uplink

namespace Stack

theorem linked_act (a : Action) (s : Stack) (linked : s.Linked) : (s.act a).2.Linked := by
  have lawful : a.Lawful → (s.act a).2.Linked := fun lawful => (@act_yields [] a s lawful linked).1
  cases a with
  | complete r | retry r =>
      simp only [act, ifHandle, ifRelay]
      split
      · exact linked
      · split <;> exact linked
  | post i event =>
      simp only [act, ifLoop, enqueue]
      split
      · exact linked
      · cases s.hub.enqueue i (.event event) <;> exact linked
  | _ => exact lawful trivial

def Echoes (s t : Stack) : Prop :=
  ∃ (z : Stack) (g : Guise), z.Linked ∧ g.duplicates = false ∧ s = z.wear g ∧ t = z.wear g.echo

variable {s t : Stack}

-- What no guise is noticed by, two stacks do not tell apart either.
theorem echoes_quiet {α : Type} (f : Stack → α × Stack)
    (overlooks : ∀ (g : Guise) (z : Stack), z.Linked → f (z.wear g) = ((f z).1, (f z).2.wear g))
    (linked : ∀ z : Stack, z.Linked → (f z).2.Linked) (echoes : s.Echoes t) :
    (f t).1 = (f s).1 ∧ (f s).2.Echoes (f t).2 := by
  obtain ⟨z, g, connected, silent, rfl, rfl⟩ := echoes
  rw [overlooks g z connected, overlooks g.echo z connected]
  exact ⟨rfl, (f z).2, g, linked z connected, silent, rfl, rfl⟩

theorem echoes_still (f : Stack → Stack) (overlooks : ∀ (g : Guise) (z : Stack), f (z.wear g) = (f z).wear g)
    (link : ∀ z : Stack, (f z).link = z.link) (echoes : s.Echoes t) : (f s).Echoes (f t) :=
  (echoes_quiet (fun s => ((), f s)) (fun g z _ => congrArg (Prod.mk ()) (overlooks g z))
    (fun z ⟨u, here⟩ => ⟨u, (link z).trans here⟩) echoes).2

theorem echoes_loop (i : Nat) (echoes : s.Echoes t) : t.loop? i = s.loop? i := by
  obtain ⟨z, g, -, -, rfl, rfl⟩ := echoes
  rfl

theorem echoes_weight (echoes : s.Echoes t) : t.weight = s.weight := by
  obtain ⟨z, g, -, -, rfl, rfl⟩ := echoes
  rw [weight_wear, weight_wear]

theorem echoes_link (echoes : s.Echoes t) :
    ∃ u v, s.link = .uplink u ∧ t.link = .uplink v ∧ Uplink.Echo (u, s.hub) (v, t.hub) ∧
      ∀ x y, Uplink.Echo x y →
        Echoes { s with hub := x.2, link := .uplink x.1 } { t with hub := y.2, link := .uplink y.1 } := by
  obtain ⟨z, g, ⟨u, link⟩, silent, rfl, rfl⟩ := echoes
  refine ⟨g.uplink u, g.echo.uplink u, congrArg g.link link, congrArg g.echo.link link,
    ⟨(u, z.hub), g, silent, rfl, rfl⟩, fun x y echo => ?_⟩
  obtain ⟨w, g', silent', rfl, rfl⟩ := echo
  exact ⟨{ z with hub := w.2, link := .uplink w.1 }, g', ⟨w.1, rfl⟩, silent', rfl, rfl⟩

theorem echoes_haul (echoes : s.Echoes t) : s.haul.Echoes t.haul := by
  obtain ⟨u, v, mine, other, echo, back⟩ := echoes_link echoes
  simp only [haul, mine, other]
  exact back _ _ (Uplink.echo_haul echo)

theorem echoes_flush (echoes : s.Echoes t) : t.flush.1 = s.flush.1 ∧ s.flush.2.Echoes t.flush.2 := by
  obtain ⟨u, v, mine, other, echo, back⟩ := echoes_link echoes
  simp only [flush, mine, other]
  have hauled := Uplink.echo_haul echo
  exact ⟨Uplink.echo_idle (k := (v.haul Hub.complete t.hub).2) hauled, back _ _ hauled⟩

theorem echoes_shutdown (echoes : s.Echoes t) : s.shutdown.Echoes t.shutdown := by
  obtain ⟨u, v, mine, other, echo, back⟩ := echoes_link echoes
  simp only [shutdown, mine, other]
  exact back _ _ (Uplink.echo_shutdown echo)

theorem echoes_complete (k : Handle) (echoes : s.Echoes t) : (s.onHub (·.complete k)).Echoes (t.onHub (·.complete k)) := by
  obtain ⟨z, g, linked, silent, rfl, rfl⟩ := echoes
  refine ⟨z.onHub (·.complete k), g.told (z.hub.holds k), linked, silent, ?_, ?_⟩
  · simp only [onHub, wear, Hub.wear_complete]
    rfl
  · simp only [onHub, wear, Hub.wear_complete, Guise.echo_told]
    rfl

theorem echoes_ifRelay (f : Stack → Reply × Stack) (echoes : s.Echoes t)
    (each : (f t).1 = (f s).1 ∧ (f s).2.Echoes (f t).2) :
    (t.ifRelay f).1 = (s.ifRelay f).1 ∧ (s.ifRelay f).2.Echoes (t.ifRelay f).2 := by
  have same : t.hub.relay.isNone = s.hub.relay.isNone := by
    obtain ⟨z, g, -, -, rfl, rfl⟩ := echoes
    simp only [hub_wear, Hub.none_wear]
  rw [ifRelay, ifRelay, same]
  split
  · exact ⟨rfl, echoes⟩
  · exact each

theorem echoes_pump (limit : Nat) (echoes : s.Echoes t) :
    (t.act (.uplink (.pump limit))).1 = (s.act (.uplink (.pump limit))).1 ∧
      (s.act (.uplink (.pump limit))).2.Echoes (t.act (.uplink (.pump limit))).2 := by
  obtain ⟨u, v, mine, other, echo, back⟩ := echoes_link echoes
  simp only [act, mine, other, onUplink]
  obtain ⟨counts, pumped⟩ := Uplink.echo_pump limit echo
  exact ⟨congrArg Reply.count counts, back _ _ pumped⟩

theorem echoes_act (a : Action) (echoes : s.Echoes t) : (t.act a).1 = (s.act a).1 ∧ (s.act a).2.Echoes (t.act a).2 := by
  by_cases quiet : a.Reports
  · cases a with
    | complete r =>
        refine echoes_ifRelay _ echoes ?_
        have named : t.handle? r = s.handle? r := by
          obtain ⟨z, g, -, -, rfl, rfl⟩ := echoes
          rw [wear_handle, wear_handle]
        rw [named]
        cases s.handle? r with
        | none => exact ⟨rfl, echoes⟩
        | some k => exact ⟨rfl, echoes_complete k echoes⟩
    | shutdown => exact echoes_ifRelay _ echoes ⟨rfl, echoes_shutdown echoes⟩
    | flush =>
        obtain ⟨idle, flushed⟩ := echoes_flush echoes
        exact echoes_ifRelay _ echoes ⟨congrArg Reply.flag idle, flushed⟩
    | uplink call =>
        cases call with
        | pump limit => exact echoes_pump limit echoes
        | _ => exact quiet.elim
    | _ => exact quiet.elim
  · exact echoes_quiet (fun s => s.act a) (fun g z => wear_act g z a quiet) (linked_act a) echoes

theorem echoes_perform (script : Script) (echoes : s.Echoes t) : (s.perform script).Echoes (t.perform script) := by
  induction script generalizing s t with
  | nil => exact echoes
  | cons a rest ih =>
      obtain ⟨answers, acted⟩ := echoes_act a echoes
      simp only [perform, answers]
      exact ih (echoes_still (·.note (.answered (s.act a).1)) (fun g z => wear_note g z _) (fun _ => rfl) acted)

theorem echoes_startTask (i : Nat) (task : Task) (echoes : s.Echoes t) :
    (t.startTask i task).1 = (s.startTask i task).1 ∧ (t.startTask i task).2.1 = (s.startTask i task).2.1 ∧
      (s.startTask i task).2.2.Echoes (t.startTask i task).2.2 := by
  obtain ⟨z, g, ⟨u, link⟩, silent, rfl, rfl⟩ := echoes
  rw [wear_startTask, wear_startTask]
  exact ⟨rfl, rfl, (z.startTask i task).2.2, g, ⟨u, (link_startTask i task z).trans link⟩, silent, rfl, rfl⟩

theorem echoes_finishTask (i : Nat) (rest : Epilogue) (echoes : s.Echoes t) :
    (s.finishTask i rest).Echoes (t.finishTask i rest) :=
  echoes_still (·.finishTask i rest) (fun g z => wear_finishTask g z i rest) (link_finishTask i rest) echoes

theorem echoes_runTask (i : Nat) (task : Task) (echoes : s.Echoes t) : (s.runTask i task).Echoes (t.runTask i task) := by
  obtain ⟨scripts, rests, started⟩ := echoes_startTask i task echoes
  simp only [runTask, scripts, rests]
  exact echoes_finishTask i _ (echoes_perform _ started)

theorem echoes_next (i : Nat) (echoes : s.Echoes t) :
    s.next? i = none ∧ t.next? i = none ∨
      ∃ task s' t', s.next? i = some (task, s') ∧ t.next? i = some (task, t') ∧ s'.Echoes t' := by
  obtain ⟨z, g, linked, silent, rfl, rfl⟩ := echoes
  rw [wear_next, wear_next]
  cases taken : z.next? i with
  | none => exact .inl ⟨rfl, rfl⟩
  | some x =>
      obtain ⟨u, link⟩ := linked
      have kept := (next_outlook z x.2 i x.1 taken).2.1
      exact .inr ⟨x.1, _, _, rfl, rfl, x.2, g, ⟨u, kept.trans link⟩, silent, rfl, rfl⟩

theorem echoes_occupy (i : Nat) (echoes : s.Echoes t) : (s.occupy i).Echoes (t.occupy i) :=
  echoes_still (·.occupy i) (fun _ _ => rfl) (fun _ => rfl) echoes

theorem echoes_turn (thread : Thread) (echoes : s.Echoes t) : (s.asThread thread).Echoes (t.asThread thread) :=
  echoes_still (·.asThread thread) (fun _ _ => rfl) (fun _ => rfl) echoes

theorem echoes_modifyLoop (i : Nat) (f : RunLoop → RunLoop) (echoes : s.Echoes t) :
    (s.modifyLoop i f).Echoes (t.modifyLoop i f) :=
  echoes_still (·.modifyLoop i f) (fun _ _ => rfl) (fun _ => rfl) echoes

theorem echoes_once (i : Nat) (echoes : s.Echoes t) :
    (t.runOnce i).1 = (s.runOnce i).1 ∧ (s.runOnce i).2.Echoes (t.runOnce i).2 := by
  simp only [runOnce]
  rcases echoes_next i echoes with ⟨mine, other⟩ | ⟨task, s', t', mine, other, after⟩
  · rw [mine, other]
    exact ⟨rfl, echoes⟩
  · rw [mine, other]
    exact ⟨rfl, echoes_runTask i task after⟩

theorem echoes_many (i fuel done : Nat) (echoes : s.Echoes t) :
    (t.runMany i fuel done).1 = (s.runMany i fuel done).1 ∧ (s.runMany i fuel done).2.Echoes (t.runMany i fuel done).2 := by
  induction fuel generalizing done s t with
  | zero => exact ⟨rfl, echoes⟩
  | succ fuel ih =>
      obtain ⟨worked, after⟩ := echoes_once i echoes
      rw [runMany, runMany]
      rcases once : s.runOnce i with ⟨busy, s'⟩
      rcases other : t.runOnce i with ⟨busy', t'⟩
      rw [once, other] at worked after
      obtain rfl : busy' = busy := worked
      cases busy' with
      | false => exact ⟨rfl, after⟩
      | true => exact ih (done + 1) after

theorem echoes_dropTask (i : Nat) (echoes : s.Echoes t) : (s.dropTask i).Echoes (t.dropTask i) :=
  echoes_still (·.dropTask i) (fun g z => wear_dropTask g z i) (link_dropTask i) echoes

theorem echoes_discharge (i fuel : Nat) (echoes : s.Echoes t) : (s.discharge i fuel).Echoes (t.discharge i fuel) := by
  induction fuel generalizing s t with
  | zero => exact echoes
  | succ fuel ih =>
      rw [discharge, discharge]
      rcases echoes_next i echoes with ⟨mine, other⟩ | ⟨task, s', t', mine, other, after⟩
      · rw [mine, other]
        exact echoes
      · rw [mine, other]
        cases task with
        | job j => exact ih (echoes_runTask i (.job j) after)
        | event e => exact ih (echoes_still (·.dropEvent i e) (fun g z => wear_dropEvent g z i e) (fun _ => rfl) after)
        | load | unload | stop => exact ih after

theorem echoes_quit (i place : Nat) (echoes : s.Echoes t) :
    (t.quit i place).1 = (s.quit i place).1 ∧ (s.quit i place).2.Echoes (t.quit i place).2 := by
  obtain ⟨z, g, ⟨u, link⟩, silent, rfl, rfl⟩ := echoes
  rw [wear_quit, wear_quit]
  exact ⟨rfl, (z.quit i place).2, g, ⟨u, (link_quit i place z).trans link⟩, silent, rfl, rfl⟩

theorem echoes_endApps (i n : Nat) (echoes : s.Echoes t) : (s.endApps i n).Echoes (t.endApps i n) := by
  induction n generalizing s t with
  | zero => exact echoes
  | succ n ih =>
      obtain ⟨scripts, left⟩ := echoes_quit i 0 echoes
      refine ih ?_
      simp only [endApp, scripts]
      exact echoes_perform _ left

theorem echoes_close (i : Nat) (echoes : s.Echoes t) : (s.close i).Echoes (t.close i) := by
  have shut : (s.shut i).Echoes (t.shut i) := echoes_modifyLoop i _ echoes
  have listed : (t.shut i).leaving i = (s.shut i).leaving i := by rw [leaving, leaving, echoes_loop i shut]
  have cleared := echoes_modifyLoop i (fun l => { l with roster := [] }) (echoes_endApps i ((s.shut i).leaving i).length shut)
  simp only [close, listed, clearRoster, echoes_weight cleared]
  exact echoes_modifyLoop i _ (echoes_discharge i _ cleared)

theorem echoes_runFor (i fuel : Nat) (echoes : s.Echoes t) :
    (t.runFor i fuel).1 = (s.runFor i fuel).1 ∧ (s.runFor i fuel).2.Echoes (t.runFor i fuel).2 := by
  induction fuel generalizing s t with
  | zero => exact ⟨rfl, echoes⟩
  | succ fuel ih =>
      rw [runFor, runFor]
      rcases echoes_next i echoes with ⟨mine, other⟩ | ⟨task, s', t', mine, other, after⟩
      · rw [mine, other]
        exact ⟨rfl, echoes⟩
      · rw [mine, other]
        have ran := echoes_runTask i task after
        have asked : (t'.runTask i task).stopRequested i = (s'.runTask i task).stopRequested i := by
          rw [stopRequested, stopRequested, echoes_loop i ran]
        cases task with
        | stop => exact ⟨rfl, echoes_close i after⟩
        | _ =>
            simp only [asked]
            split
            · exact ⟨rfl, echoes_close i ran⟩
            · exact ih ran

theorem echoes_ifHeld (i : Nat) (f f' : RunLoop → Reply × Stack) (echoes : s.Echoes t)
    (each : ∀ l, (f' l).1 = (f l).1 ∧ (f l).2.Echoes (f' l).2) :
    (t.ifHeld i f').1 = (s.ifHeld i f).1 ∧ (s.ifHeld i f).2.Echoes (t.ifHeld i f').2 := by
  rw [ifHeld, ifHeld, echoes_loop i echoes]
  split
  · exact ⟨rfl, echoes⟩
  · split
    · exact each _
    · exact ⟨rfl, echoes⟩

theorem echoes_step (step : Step) (echoes : s.Echoes t) :
    (t.step step).1 = (s.step step).1 ∧ (s.step step).2.Echoes (t.step step).2 := by
  cases step with
  | act a => exact echoes_act a echoes
  | runOnce i =>
      refine echoes_ifHeld i _ _ echoes fun _ => ?_
      obtain ⟨worked, after⟩ := echoes_once i (echoes_occupy i echoes)
      exact ⟨congrArg Reply.flag worked, after⟩
  | runIdle i =>
      refine echoes_ifHeld i _ _ echoes fun _ => ?_
      have occupied := echoes_occupy i echoes
      obtain ⟨counts, after⟩ := echoes_many i ((s.occupy i).weight + 1) 0 occupied
      simp only [runIdle, echoes_weight occupied]
      exact ⟨congrArg Reply.count counts, after⟩
  | run i spawn =>
      refine echoes_ifHeld i _ _ echoes fun l => ?_
      have stopped := echoes_modifyLoop i (·.stop none) echoes
      have ran : ∀ {s t : Stack}, s.Echoes t → ((s.occupy i).run i).2.Echoes ((t.occupy i).run i).2 := fun echoes => by
        have occupied := echoes_occupy i echoes
        simp only [run, echoes_weight occupied]
        exact (echoes_runFor i _ occupied).2
      have threads : (t.modifyLoop i (·.stop none)).threads = (s.modifyLoop i (·.stop none)).threads := by
        obtain ⟨z, g, -, -, rfl, rfl⟩ := echoes
        rfl
      cases spawn with
      | false => exact ⟨rfl, ran stopped⟩
      | true =>
          simp only [if_true, threads]
          exact ⟨trivial, ran (echoes_turn _ stopped)⟩
  | dropLoop i =>
      exact echoes_ifHeld i _ _ echoes fun _ =>
        ⟨rfl, echoes_still (·.dropLoop i) (fun g z => wear_dropLoop g z i) (fun _ => rfl) echoes⟩
  | dropRelay =>
      refine echoes_quiet (fun s => (Reply.flag s.hub.dropRelay.1, { s with hub := s.hub.dropRelay.2 })) (fun g z _ => ?_)
        (fun _ => id) echoes
      simp only [hub_wear, Hub.wear_dropRelay]
      rfl

theorem echoes_advance (step : Step) (echoes : s.Echoes t) :
    (t.advance step).1 = (s.advance step).1 ∧ (t.advance step).2.1 = (s.advance step).2.1 ∧
      (s.advance step).2.2.Echoes (t.advance step).2.2 := by
  obtain ⟨answers, stepped⟩ := echoes_step step (echoes_turn mainThread echoes)
  have hauled := echoes_haul stepped
  have noted : ((t.asThread mainThread).step step).2.haul.hub.journal =
      ((s.asThread mainThread).step step).2.haul.hub.journal := by
    obtain ⟨z, g, -, -, mine, other⟩ := hauled
    rw [mine, other]
    rfl
  refine ⟨answers, ?_, echoes_still (·.onHub fun h => { h with journal := #[] }) (fun _ _ => rfl) (fun _ => rfl) hauled⟩
  simp only [advance, noted]

theorem echoes_session (steps : List Step) (echoes : s.Echoes t) : (s.session steps).Echoes (t.session steps) := by
  induction steps generalizing s t with
  | nil => exact echoes
  | cons step rest ih => exact ih (echoes_advance step echoes).2.2

end Stack

namespace Scene

theorem echoes_move (m : Move) {c d : Scene} (echoes : c.stack.Echoes d.stack) (hand : d.hand = c.hand) :
    (c.move m).stack.Echoes (d.move m).stack ∧ (d.move m).hand = (c.move m).hand := by
  open Stack in
  have shut : ∀ i, d.stack.isShut i = c.stack.isShut i := fun i => by
    rw [isShut, isShut, echoes_loop i echoes]
  cases m with
  | act a => exact ⟨(Stack.echoes_act a echoes).2, hand⟩
  | haul => exact ⟨Stack.echoes_haul echoes, hand⟩
  | turn thread => exact ⟨Stack.echoes_turn thread echoes, hand⟩
  | note n => exact ⟨Stack.echoes_still (·.note n) (fun _ _ => rfl) (fun _ => rfl) echoes, hand⟩
  | tell =>
      exact ⟨Stack.echoes_still (·.onHub fun h => { h with journal := #[] }) (fun _ _ => rfl) (fun _ => rfl) echoes, hand⟩
  | occupy i => exact ⟨Stack.echoes_occupy i echoes, hand⟩
  | take i =>
      simp only [move, take]
      rcases Stack.echoes_next i echoes with ⟨mine, other⟩ | ⟨task, s', t', mine, other, after⟩
      · rw [mine, other]
        exact ⟨echoes, hand⟩
      · rw [mine, other]
        obtain ⟨-, rests, started⟩ := Stack.echoes_startTask i task after
        simp only [rests, hand]
        exact ⟨started, trivial⟩
  | finish place =>
      simp only [move, finish, hand]
      split
      · exact ⟨echoes, hand⟩
      · exact ⟨Stack.echoes_finishTask _ _ echoes, rfl⟩
  | shut i => exact ⟨Stack.echoes_modifyLoop i _ echoes, hand⟩
  | quit i place => exact ⟨(Stack.echoes_quit i place echoes).2, hand⟩
  | clearRoster i => exact ⟨Stack.echoes_modifyLoop i _ echoes, hand⟩
  | drop i =>
      simp only [move, shut]
      split
      · exact ⟨Stack.echoes_dropTask i echoes, hand⟩
      · exact ⟨echoes, hand⟩
  | detach i =>
      simp only [move, shut]
      split
      · exact ⟨Stack.echoes_modifyLoop i _ echoes, hand⟩
      · exact ⟨echoes, hand⟩
  | dropRelay =>
      refine ⟨Stack.echoes_still (·.onHub fun h => h.dropRelay.2) (fun g z => ?_) (fun _ => rfl) echoes, hand⟩
      exact Stack.wear_onHub g z _ (congrArg Prod.snd (Hub.wear_dropRelay g z.hub))

theorem echoes_run (moves : List Move) {c d : Scene} (echoes : c.stack.Echoes d.stack) (hand : d.hand = c.hand) :
    (c.run moves).stack.Echoes (d.run moves).stack ∧ (d.run moves).hand = (c.run moves).hand := by
  induction moves generalizing c d with
  | nil => exact ⟨echoes, hand⟩
  | cons m rest ih =>
      obtain ⟨moved, held⟩ := echoes_move m echoes hand
      exact ih moved held

end Scene

end HubRelay
