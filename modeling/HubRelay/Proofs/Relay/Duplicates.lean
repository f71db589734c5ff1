import HubRelay.Proofs.Relay.Echoes

/-! Without retries from outside, the link completes each message that it was given just once, and the relay counts each
completion as one. So where the link reports all of them twice, the relay counts as many duplicates as completions. -/

set_option autoImplicit false

namespace HubRelay

structure Guise.Settled (g : Guise) : Prop where
  silent : g.duplicates = false
  none : g.duplicateCompletions = 0
  all : g.completions = g.transmitted + g.failed

theorem Guise.settled_reported (fails : Bool) (g : Guise) (settled : g.Settled) : (g.reported fails true).Settled := by
  obtain ⟨silent, none, all⟩ := settled
  refine ⟨silent, ?_, ?_⟩
  · simp only [reported, told, silent, none]
    rfl
  · cases fails <;> simp only [reported, told, all] <;> simp <;> omega

structure Traffic.Manned (t : Traffic) : Prop where
  owned : t.Owned
  alive : t.pool.isSome

theorem Traffic.follows_manned (past : Hub) (t t' : Traffic) (follows : Follows past t t') (manned : t.Manned) : t'.Manned := by
  refine Scene.follows_invariant past t t' Traffic.Manned follows manned fun t t' change manned => ?_
  refine ⟨change_owned past t t' change manned.owned, ?_⟩
  have alive := manned.alive
  cases change <;> simp_all

namespace Uplink

open Hub

def Counted (x : Uplink × Hub) : Prop := ∃ (z : Uplink × Hub) (g : Guise), g.Settled ∧ x = g.on z

variable {hand : List (Nat × Epilogue)} {u : Uplink} {h : Hub}

theorem counted_transmit (m : Outgoing) (failing : Bool) (waiting : Multiset Outgoing) (counted : Counted (u, h))
    (manned : (h.traffic (m ::ₘ waiting) hand).Manned) : Counted (transmit complete m failing u h) := by
  obtain ⟨p, alive⟩ := Option.isSome_iff_exists.mp manned.alive
  obtain ⟨parcel, live⟩ := Traffic.owned_message _ p m waiting manned.owned alive rfl
  obtain ⟨r, relay, rfl⟩ := Option.map_eq_some_iff.mp alive
  have holds : (h.relay.bind (·.pool.live? m.handle)).isSome := by
    rw [relay, Option.bind_some, live]
    rfl
  obtain ⟨z, g, settled, same⟩ := counted
  cases same
  have found : z.2.holds m.handle = true := by rwa [live_wear] at holds
  rw [wear_transmit, found]
  exact ⟨_, _, g.settled_reported _ settled, rfl⟩

theorem counted_pump (limit : Nat) (counted : Counted (u, h)) (manned : (h.traffic u.queue.toList hand).Manned) :
    Counted (pump complete limit u h).2 := by
  induction limit generalizing u h with
  | zero => exact counted
  | succ limit ih =>
      rw [pump]
      split
      · exact counted
      · next m failing u' taken =>
          rw [(take_some taken).1] at manned
          obtain ⟨follows, -, queue⟩ := @transmit_follows u'.queue.toList hand h h m failing u' rfl
          have before : Counted (u', h) := by
            obtain ⟨z, g, settled, same⟩ := counted
            cases same
            rw [wear_take] at taken
            obtain ⟨x, -, same⟩ := Option.map_eq_some_iff.mp taken
            cases same
            exact ⟨(x.2.2, z.2), g, settled, rfl⟩
          have after := Traffic.follows_manned h _ _ follows manned
          rw [← queue] at after
          exact ih (counted_transmit m failing u'.queue.toList before manned) after

theorem counted_haul (counted : Counted (u, h)) (manned : (h.traffic u.queue.toList hand).Manned) :
    Counted (haul complete u h) := by
  unfold haul
  split
  · exact counted_pump _ counted manned
  · exact counted

theorem counted_failAll (messages : List Outgoing) (counted : Counted (u, h))
    (manned : (h.traffic (messages + u.queue.toList) hand).Manned) : Counted (failAll complete messages u h) := by
  induction messages generalizing u h with
  | nil => exact counted
  | cons m rest ih =>
      rw [← Multiset.cons_coe, Multiset.cons_add] at manned
      obtain ⟨follows, -, queue⟩ := @transmit_follows (rest + u.queue.toList) hand h h m true u rfl
      have after := Traffic.follows_manned h _ _ follows manned
      rw [← queue] at after
      exact ih (counted_transmit m true _ counted manned) after

theorem counted_shutdown (counted : Counted (u, h)) (manned : (h.traffic u.queue.toList hand).Manned) :
    Counted (shutdown complete u h) := by
  unfold shutdown
  split
  · exact counted
  · have hauled := counted_haul counted manned
    have manned' := Traffic.follows_manned h _ _ (@haul_follows hand h h u rfl).1 manned
    have closed : Counted ((haul complete u h).1.close.takeAll.2, (haul complete u h).2) := by
      obtain ⟨z, g, settled, same⟩ := hauled
      rw [same]
      exact ⟨(z.1.close.takeAll.2, z.2), g, settled, rfl⟩
    have left : ((haul complete u h).1.close.takeAll.1 : Multiset Outgoing) +
        (haul complete u h).1.close.takeAll.2.queue.toList =
        (haul complete u h).1.queue.toList := by
      simp [takeAll, close]
    rw [← left] at manned'
    exact counted_failAll _ closed manned'

end Uplink

namespace Stack

def Counted (s : Stack) : Prop := ∃ (z : Stack) (g : Guise), z.Linked ∧ g.Settled ∧ s = z.wear g

variable {s : Stack} {hand : List (Nat × Epilogue)}

theorem counted_quiet {α : Type} (f : Stack → α × Stack)
    (overlooks : ∀ (g : Guise) (z : Stack), z.Linked → f (z.wear g) = ((f z).1, (f z).2.wear g))
    (linked : ∀ z : Stack, z.Linked → (f z).2.Linked) (counted : s.Counted) : (f s).2.Counted := by
  obtain ⟨z, g, connected, settled, rfl⟩ := counted
  rw [overlooks g z connected]
  exact ⟨(f z).2, g, linked z connected, settled, rfl⟩

theorem counted_still (f : Stack → Stack) (overlooks : ∀ (g : Guise) (z : Stack), f (z.wear g) = (f z).wear g)
    (link : ∀ z : Stack, (f z).link = z.link) (counted : s.Counted) : (f s).Counted :=
  counted_quiet (fun s => ((), f s)) (fun g z _ => congrArg (Prod.mk ()) (overlooks g z))
    (fun z ⟨u, here⟩ => ⟨u, (link z).trans here⟩) counted

theorem counted_link (counted : s.Counted) :
    ∃ u, s.link = .uplink u ∧ Uplink.Counted (u, s.hub) ∧
      ∀ x, Uplink.Counted x → Counted { s with hub := x.2, link := .uplink x.1 } := by
  obtain ⟨z, g, ⟨u, link⟩, settled, rfl⟩ := counted
  refine ⟨g.uplink u, congrArg g.link link, ⟨(u, z.hub), g, settled, rfl⟩, fun x after => ?_⟩
  obtain ⟨w, g', settled', rfl⟩ := after
  exact ⟨{ z with hub := w.2, link := .uplink w.1 }, g', ⟨w.1, rfl⟩, settled', rfl⟩

theorem counted_linked (s : Stack) (counted : s.Counted) : s.Linked := by
  obtain ⟨u, link, -⟩ := counted_link counted
  exact ⟨u, link⟩

theorem counted_haul (counted : s.Counted) (manned : (s.traffic hand).Manned) : s.haul.Counted := by
  obtain ⟨u, link, here, back⟩ := counted_link counted
  rw [traffic, link] at manned
  simp only [haul, link]
  exact back _ (Uplink.counted_haul here manned)

theorem counted_act (a : Action) (lawful : a.Lawful) (counted : s.Counted) (manned : (s.traffic hand).Manned) :
    (s.act a).2.Counted := by
  by_cases quiet : a.Reports
  · obtain ⟨u, link, here, back⟩ := counted_link counted
    rw [traffic, link] at manned
    cases a with
    | shutdown =>
        simp only [act, ifRelay, shutdown, link]
        split
        · exact counted
        · exact back _ (Uplink.counted_shutdown here manned)
    | flush =>
        simp only [act, ifRelay, flush, link]
        split
        · exact counted
        · exact back _ (Uplink.counted_haul here manned)
    | uplink call =>
        cases call with
        | pump limit =>
            simp only [act, link]
            exact back _ (Uplink.counted_pump limit here manned)
        | _ => exact quiet.elim
    | complete r => exact lawful.elim
    | _ => exact quiet.elim
  · exact counted_quiet (fun s => s.act a) (fun g z => wear_act g z a quiet) (linked_act a) counted

end Stack

namespace Scene

theorem move_counted (m : Move) (c : Scene) (lawful : m.Lawful) (kept : m ≠ .dropRelay) (manned : c.traffic.Manned)
    (counted : c.stack.Counted) : (c.move m).stack.Counted := by
  open Stack in
  have held : (c.stack.traffic c.hand).Manned := manned
  cases m with
  | act a => exact Stack.counted_act a lawful counted held
  | haul => exact Stack.counted_haul counted held
  | turn thread => exact counted_still (·.asThread thread) (fun _ _ => rfl) (fun _ => rfl) counted
  | note n => exact counted_still (·.note n) (fun _ _ => rfl) (fun _ => rfl) counted
  | tell => exact counted_still (·.onHub fun h => { h with journal := #[] }) (fun _ _ => rfl) (fun _ => rfl) counted
  | occupy i => exact counted_still (·.occupy i) (fun _ _ => rfl) (fun _ => rfl) counted
  | take i =>
      simp only [move, take]
      split
      · exact counted
      · next task next taken =>
          obtain ⟨z, g, ⟨u, link⟩, settled, same⟩ := counted
          rw [same, wear_next] at taken
          obtain ⟨x, found, same⟩ := Option.map_eq_some_iff.mp taken
          cases same
          simp only [wear_startTask]
          have kept := (link_startTask i x.1 x.2).trans (next_outlook z x.2 i x.1 found).2.1
          exact ⟨_, g, ⟨u, kept.trans link⟩, settled, rfl⟩
  | finish place =>
      simp only [move, finish]
      split
      · exact counted
      · next i rest _ =>
          exact counted_still (·.finishTask i rest) (fun g z => wear_finishTask g z i rest) (link_finishTask i rest) counted
  | shut i => exact counted_still (·.shut i) (fun _ _ => rfl) (fun _ => rfl) counted
  | quit i place =>
      exact counted_still (fun s => (s.quit i place).2) (fun g z => congrArg Prod.snd (wear_quit g z i place))
        (link_quit i place) counted
  | clearRoster i => exact counted_still (·.clearRoster i) (fun _ _ => rfl) (fun _ => rfl) counted
  | drop i =>
      simp only [move]
      split
      · exact counted_still (·.dropTask i) (fun g z => wear_dropTask g z i) (link_dropTask i) counted
      · exact counted
  | detach i =>
      simp only [move]
      split
      · exact counted_still (·.detach i) (fun _ _ => rfl) (fun _ => rfl) counted
      · exact counted
  | dropRelay => exact absurd rfl kept

theorem run_counted (moves : List Move) (c : Scene) (lawful : ∀ m ∈ moves, m.Lawful) (kept : .dropRelay ∉ moves)
    (manned : c.traffic.Manned) (counted : c.stack.Counted) : (c.run moves).stack.Counted ∧ (c.run moves).traffic.Manned := by
  induction moves generalizing c with
  | nil => exact ⟨counted, manned⟩
  | cons m rest ih =>
      have linked := Stack.counted_linked c.stack counted
      have stays : m ≠ .dropRelay := fun same => kept (same ▸ List.mem_cons_self)
      have moved := move_counted m c (lawful m List.mem_cons_self) stays manned counted
      obtain ⟨-, follows | ⟨lost, -⟩⟩ := move_follows m c (lawful m List.mem_cons_self) linked
      · exact ih (c.move m) (fun m' member => lawful m' (List.mem_cons_of_mem m member))
          (fun member => kept (List.mem_cons_of_mem m member)) (Traffic.follows_manned _ _ _ follows manned) moved
      · exact absurd lost stays

end Scene

theorem handErrands_append (hand more : List (Nat × Epilogue)) :
    handErrands (hand ++ more) = handErrands hand + handErrands more := by
  rw [handErrands, List.filterMap_append, ← Multiset.coe_add]
  rfl

-- What would have given back the slot of a task, had it not been dropped.
def Task.ghost? : Task → Option Epilogue
  | .event e => some (.consume e)
  | .job (.handBack k _ _ _) => some (.giveBack k)
  | .job (.retry k n) => some (.consume ⟨0, 0, 0, .empty, some (.reclaim k n)⟩)
  | _ => none

def ghosts (tasks : List Task) : List (Nat × Epilogue) := tasks.filterMap fun t => t.ghost?.map (0, ·)

theorem ghost_holding (t : Task) : (t.ghost?.bind Epilogue.errand?).map Errand.holding = t.errand?.map Errand.holding := by
  cases t with
  | event e =>
      rcases Hub.event_cases e with ⟨k, n, bears⟩ | ⟨-, errand, rest, -⟩
      · obtain ⟨errand, rest⟩ := Hub.bears_errand k n e bears
        simp only [Task.ghost?, Option.bind_some, errand, rest]
        rfl
      · simp only [Task.ghost?, Option.bind_some, errand, rest]
  | job j => cases j <;> rfl
  | load | unload | stop => rfl

theorem ghosts_holdings (tasks : List Task) :
    (handErrands (ghosts tasks)).map (·.2.holding) = ((tasks.filterMap Task.errand?).map Errand.holding : List _) := by
  have listed : (ghosts tasks).filterMap (fun x => (x.2.errand?.map (x.1, ·)).map (·.2.holding)) =
      (tasks.filterMap Task.errand?).map Errand.holding := by
    rw [ghosts, List.filterMap_filterMap, List.map_filterMap]
    congr 1
    funext t
    rw [← ghost_holding t]
    cases t.ghost? with
    | none => rfl
    | some rest => cases h : rest.errand? <;> simp [h]
  rw [handErrands, Multiset.map_coe, List.map_filterMap, listed]

namespace Traffic

theorem manned_holders (t t' : Traffic) (manned : t.Manned) (pool : t'.pool = t.pool) (holders : t'.holders = t.holders) :
    t'.Manned := by
  refine ⟨fun p alive => ?_, by rw [pool]; exact manned.alive⟩
  rw [holders]
  exact manned.owned p (pool ▸ alive)

end Traffic

namespace Hub

variable {waiting : Multiset Outgoing}

theorem discarded_manned (tasks : List Task) (h : Hub) (hand : List (Nat × Epilogue))
    (manned : (h.traffic waiting (ghosts tasks ++ hand)).Manned) :
    ∃ more, ((tasks.foldl (fun h t => h.discardTask t) h).traffic waiting (more ++ hand)).Manned := by
  induction tasks generalizing h hand with
  | nil => exact ⟨[], manned⟩
  | cons t rest ih =>
      have later : ∀ (g : Nat × Epilogue) (h' : Hub), (h'.traffic waiting (ghosts rest ++ g :: hand)).Manned →
          ∃ more, ((rest.foldl (fun h t => h.discardTask t) h').traffic waiting (more ++ hand)).Manned := by
        intro g h' held
        obtain ⟨more, dropped⟩ := ih h' (g :: hand) held
        refine ⟨more ++ [g], ?_⟩
        rwa [List.append_assoc]
      -- A ghost that is kept moves behind the others.
      have kept : ∀ (g : Epilogue) (h' : Hub), ghosts (t :: rest) = (0, g) :: ghosts rest →
          h'.traffic waiting (ghosts (t :: rest) ++ hand) = h.traffic waiting (ghosts (t :: rest) ++ hand) →
          (h'.traffic waiting (ghosts rest ++ (0, g) :: hand)).Manned := by
        intro g h' listed same
        rw [← same] at manned
        refine Traffic.manned_holders _ _ manned rfl ?_
        have errands : handErrands (ghosts rest ++ (0, g) :: hand) = handErrands (ghosts (t :: rest) ++ hand) := by
          rw [listed, List.cons_append, handErrands, handErrands]
          exact Multiset.coe_eq_coe.mpr (List.perm_middle.filterMap _)
        simp only [Traffic.holders, traffic, errands]
      cases t with
      | event e =>
          have follows := @consume_follows waiting (ghosts rest ++ hand) h h 0 e
          rw [← traffic_hand h 0 (.consume e) id] at follows
          exact ih (h.discard e) hand (Traffic.follows_manned h _ _ follows manned)
      | job j =>
          cases j with
          | user label script => exact ih _ hand manned
          | handBack k n callback payload => exact later _ _ (kept (.giveBack k) (h.note _) rfl rfl)
          | retry k n => exact later _ h (kept _ h rfl rfl)
      | load | unload | stop => exact ih h hand manned

end Hub

namespace Stack

variable {hand : List (Nat × Epilogue)}

theorem dropLoop_manned (i : Nat) (s : Stack) (manned : (s.traffic hand).Manned) :
    ∃ more, ((s.dropLoop i).traffic (more ++ hand)).Manned := by
  let drained : RunLoop → RunLoop := fun l => { l with queue := .empty, apps := [], attached := false }
  rcases s.hub.modify_cases i drained with ⟨absent, same⟩ | ⟨l, place, change⟩
  · have idle : s.dropLoop i = s := by
      simp only [dropLoop, loop?, absent, Option.map_none, Option.getD_none, List.foldl_nil]
      exact congrArg (fun h => { s with hub := h }) same
    rw [idle]
    exact ⟨[], manned⟩
  · have dropped : s.dropLoop i =
        s.onHub fun h => l.queue.toList.foldl (fun h t => h.discardTask t) { h with loops := h.loops.set i (drained l) } := by
      simp only [dropLoop, loop?, place, modifyLoop, onHub]
      rw [change]
      rfl
    rw [dropped]
    refine Hub.discarded_manned l.queue.toList _ hand (Traffic.manned_holders _ _ manned rfl ?_)
    have queued : gather RunLoop.errands s.hub.loops =
        l.errands i + gather RunLoop.errands (s.hub.loops.set i (drained l)) :=
      gather_set_less RunLoop.errands s.hub.loops i l (drained l) _ place (add_zero _).symm
    have held : (l.errands i).map (·.2.holding) = (handErrands (ghosts l.queue.toList)).map (·.2.holding) := by
      rw [ghosts_holdings, RunLoop.errands, Multiset.map_coe, List.map_map]
      rfl
    simp only [Traffic.holders, traffic, Hub.traffic, handErrands_append, queued, Multiset.map_add, held]
    ac_rfl

theorem tame_discardTask (t : Task) (h : Hub) (tame : h.Tame) : (h.discardTask t).Tame := by
  unfold Hub.discardTask
  split
  · exact Hub.tame_discard h _ tame
  · exact Hub.tame_note h _ tame
  · exact Hub.tame_note h _ tame
  · exact tame
  · exact tame
  · exact tame
  · exact tame

theorem tame_dropLoop (i : Nat) (s : Stack) (tame : s.Tame) : (s.dropLoop i).Tame := by
  have discarded : ∀ (tasks : List Task) (h : Hub), h.Tame → (tasks.foldl (fun h t => h.discardTask t) h).Tame := by
    intro tasks
    induction tasks with
    | nil => exact fun _ tame => tame
    | cons t rest ih => exact fun h tame => ih _ (tame_discardTask t h tame)
  exact discarded _ _ (tame_modify i _ s tame fun l held =>
    ⟨fun t waits => (by cases waits), fun a member => (by cases member), held.leaving⟩)

theorem counted_dropLoop (i : Nat) (s : Stack) (counted : s.Counted) : (s.dropLoop i).Counted :=
  counted_still (·.dropLoop i) (fun g z => wear_dropLoop g z i) (fun _ => rfl) counted

end Stack

def Step.Gentle : Step → Prop
  | .act a => a.Tame
  | .dropRelay => False
  | .runOnce _ | .runIdle _ | .run _ _ | .dropLoop _ => True

namespace Stack

structure Orderly (s : Stack) : Prop where
  tame : s.Tame
  counted : s.Counted
  manned : ∃ hand, (s.traffic hand).Manned

theorem orderly_drives (s s' : Stack) (drives : s.Drives Move.Attended s') (orderly : s.Orderly) : s'.Orderly := by
  obtain ⟨hand, manned⟩ := orderly.manned
  obtain ⟨moves, lawful, kept, -, reached⟩ := drives.reaches hand
  have ran := Scene.run_counted moves ⟨s, hand⟩ lawful kept manned orderly.counted
  rw [reached] at ran
  exact ⟨drives.tame, ran.1, hand, ran.2⟩

theorem orderly_step (step : Step) (s : Stack) (gentle : step.Gentle) (orderly : s.Orderly) : (s.step step).2.Orderly := by
  have linked := counted_linked s orderly.counted
  have driven : step.Tame → (s.step step).2.Orderly := fun tame =>
    orderly_drives s _ (drives_step step s tame linked orderly.tame) orderly
  cases step with
  | act a => exact driven gentle
  | runOnce | runIdle | run => exact driven trivial
  | dropLoop i =>
      simp only [Stack.step, ifHeld]
      split
      · exact orderly
      · split
        · obtain ⟨hand, manned⟩ := orderly.manned
          obtain ⟨more, dropped⟩ := dropLoop_manned i s manned
          exact ⟨tame_dropLoop i s orderly.tame, counted_dropLoop i s orderly.counted, more ++ hand, dropped⟩
        · exact orderly
  | dropRelay => exact gentle.elim

theorem orderly_advance (step : Step) (s : Stack) (gentle : step.Gentle) (orderly : s.Orderly) :
    (s.advance step).2.2.Orderly := by
  have turned := orderly_drives s _ (drives_turn mainThread s (counted_linked s orderly.counted) orderly.tame) orderly
  have stepped := orderly_step step _ gentle turned
  have linked := counted_linked _ stepped.counted
  have hauled := drives_haul _ linked stepped.tame
  have told := drives_tell _ hauled.linked hauled.tame
  exact orderly_drives _ _ (drives_trans _ _ _ hauled told) stepped

theorem orderly_session (steps : List Step) (s : Stack) (gentle : ∀ step ∈ steps, step.Gentle) (orderly : s.Orderly) :
    (s.session steps).Orderly := by
  induction steps generalizing s with
  | nil => exact orderly
  | cons step rest ih =>
      exact ih _ (fun other member => gentle other (List.mem_cons_of_mem step member))
        (orderly_advance step s (gentle step List.mem_cons_self) orderly)

-- The same stack but for a link that reports all completions twice, and for the duplicates that this makes.
def Twins (s t : Stack) : Prop :=
  ∃ u, s.link = .uplink u ∧ u.settings.duplicates = false ∧
    t = { s with
      hub := s.hub.count fun tally =>
        { tally with duplicateCompletions := tally.duplicateCompletions + u.tally.completed }
      link := .uplink { u with settings := { u.settings with duplicates := true } } }

theorem echoes_twins (s t : Stack) (echoes : s.Echoes t) : s.Twins t := by
  obtain ⟨z, g, ⟨u, link⟩, silent, rfl, rfl⟩ := echoes
  refine ⟨g.uplink u, congrArg g.link link, silent, ?_⟩
  have hub : z.hub.wear g.echo = (z.hub.wear g).count fun tally =>
      { tally with duplicateCompletions := tally.duplicateCompletions + (g.uplink u).tally.completed } := by
    simp only [Hub.wear, Hub.count, Hub.onRelay, Option.map_map]
    rfl
  simp only [wear, hub, link]
  rfl

def Doubles (s t : Stack) : Prop :=
  ∃ r r', s.hub.relay = some r ∧ t.hub.relay = some r' ∧ r.tally.duplicateCompletions = 0 ∧
    r'.tally.duplicateCompletions = r'.tally.completions ∧ r'.tally.completions = r.tally.completions

theorem counted_tally (s : Stack) (r : Relay) (u : Uplink) (counted : s.Counted) (relay : s.hub.relay = some r)
    (link : s.link = .uplink u) : r.tally.duplicateCompletions = 0 ∧ r.tally.completions = u.tally.completed := by
  obtain ⟨z, g, ⟨w, there⟩, ⟨-, none, all⟩, rfl⟩ := counted
  simp only [link_wear, there, Guise.link, Link.uplink.injEq] at link
  obtain ⟨r', -, rfl⟩ := Option.map_eq_some_iff.mp relay
  rw [← link]
  exact ⟨none, all⟩

theorem counted_doubles (s t : Stack) (twins : s.Twins t) (counted : s.Counted) (alive : s.hub.relay.isSome) :
    s.Doubles t := by
  obtain ⟨r, relay⟩ := Option.isSome_iff_exists.mp alive
  obtain ⟨u, link, -, rfl⟩ := twins
  obtain ⟨none, all⟩ := counted_tally s r u counted relay link
  refine ⟨r, { r with tally := { r.tally with duplicateCompletions := r.tally.duplicateCompletions + u.tally.completed } },
    relay, ?_, none, ?_, rfl⟩
  · simp only [Hub.count, Hub.onRelay, relay, Option.map_some]
  · simp only [none, all, Nat.zero_add]

end Stack

theorem Blueprint.build_link (b : Blueprint) (link other : Link) (s : Stack)
    (built : ({ b with link := some link } : Blueprint).build = .ok s) :
    ({ b with link := some other } : Blueprint).build = .ok { s with link := other } := by
  obtain ⟨settings, given, power, loops, registered⟩ := b
  cases power with
  | none => cases built
  | some power =>
      simp only [Blueprint.build] at built ⊢
      split at built
      · cases built
      · next some =>
          rw [if_neg some]
          cases created : SlotPool.create settings.outstanding with
          | error cause =>
              rw [created] at built
              cases built
          | ok pool =>
              rw [created] at built
              cases built
              rfl

namespace Stack

theorem opened_wear (link : LinkSettings) (s : Stack) (twice : Bool) (opens : (Scene.mk s []).Opens link) :
    s.wear ⟨twice, 0, 0, 0, 0⟩ = { s with link := .uplink { settings := { link with duplicates := twice } } } := by
  obtain ⟨-, linked, -, ⟨r, n, relay, -, tally⟩, -, -⟩ := Scene.opens_cases link ⟨s, []⟩ opens
  have hub : s.hub.wear ⟨twice, 0, 0, 0, 0⟩ = s.hub := by
    have same : { r with tally := (Guise.mk twice 0 0 0 0).tally r.tally } = r := by
      obtain ⟨settings, pool, claim, tally', serial⟩ := r
      cases tally
      rfl
    have worn : s.hub.wear ⟨twice, 0, 0, 0, 0⟩ = { s.hub with relay := s.hub.relay } := by
      simp only [Hub.wear, Hub.count, Hub.onRelay]
      rw [show s.hub.relay = some r from relay, Option.map_some, same]
    exact worn
  have there : s.link = .uplink { settings := link } := linked
  simp only [wear, hub, there]
  rfl

theorem opened_worn (link : LinkSettings) (s : Stack) (silent : link.duplicates = false)
    (opens : (Scene.mk s []).Opens link) : s.wear ⟨false, 0, 0, 0, 0⟩ = s := by
  have there : s.link = .uplink { settings := link } := (Scene.opens_cases link ⟨s, []⟩ opens).2.1
  obtain ⟨capacity, millis, duplicates⟩ := link
  cases silent
  rw [opened_wear _ s false opens]
  exact congrArg (fun l => { s with link := l }) there.symm

theorem opened_manned (link : LinkSettings) (s : Stack) (opens : (Scene.mk s []).Opens link) : (s.traffic []).Manned := by
  obtain ⟨-, blank⟩ := Scene.opens_blank link ⟨s, []⟩ opens
  obtain ⟨n, pool⟩ := blank.pool
  have alive : (s.traffic []).pool = some (SlotPool.ofCapacity n) := pool
  refine ⟨(Traffic.blank_sound _ blank).owned, ?_⟩
  rw [alive]
  rfl

theorem manned_alive (s : Stack) (hand : List (Nat × Epilogue)) (manned : (s.traffic hand).Manned) :
    s.hub.relay.isSome := by
  simpa [traffic, Hub.traffic] using manned.alive

end Stack

namespace Scene

/-- Nobody can tell a link that reports every completion twice from one that reports each once: whatever is called, every
answer and every note is the same, and so is all that follows, up to the count of the duplicates. As long as retries are
made by their own jobs only, and completions by the link only, the one relay counts none, and the other one for each
completion. That holds of every session, loops dropped on the way included, and of every interleaving of moves. -/
theorem duplicates_unnoticed (b : Blueprint) (link : LinkSettings) (s : Stack)
    (built : ({ b with link := some (.uplink { settings := { link with duplicates := false } }) } : Blueprint).build = .ok s) :
    ∃ t, ({ b with link := some (.uplink { settings := { link with duplicates := true } }) } : Blueprint).build = .ok t ∧
      (∀ steps, (s.session steps).Twins (t.session steps) ∧
        (∀ step, ((t.session steps).advance step).1 = ((s.session steps).advance step).1 ∧
          ((t.session steps).advance step).2.1 = ((s.session steps).advance step).2.1) ∧
        ((∀ step ∈ steps, step.Gentle) → (s.session steps).Doubles (t.session steps))) ∧
      ∀ moves, ((Scene.mk s []).run moves).stack.Twins ((Scene.mk t []).run moves).stack ∧
        ((Scene.mk t []).run moves).hand = ((Scene.mk s []).run moves).hand ∧
        (∀ a, (((Scene.mk t []).run moves).stack.act a).1 = (((Scene.mk s []).run moves).stack.act a).1) ∧
        ((∀ m ∈ moves, m.Lawful) → .dropRelay ∉ moves →
          ((Scene.mk s []).run moves).stack.Doubles ((Scene.mk t []).run moves).stack) := by
  let c : Scene := ⟨s, []⟩
  let t : Stack := { s with link := .uplink { settings := { link with duplicates := true } } }
  have opens : c.Opens { link with duplicates := false } := ⟨⟨_, rfl, built⟩, rfl⟩
  obtain ⟨linked, tame⟩ := opens_tame _ c opens
  have worn := Stack.opened_worn _ s rfl opens
  have counted : s.Counted := ⟨s, _, linked, ⟨rfl, rfl, rfl⟩, worn.symm⟩
  have manned := Stack.opened_manned _ s opens
  have echoes : s.Echoes t := ⟨s, _, linked, rfl, worn.symm, (Stack.opened_wear _ s true opens).symm⟩
  refine ⟨t, Blueprint.build_link b _ _ s built, fun steps => ?_, fun moves => ?_⟩
  · have later := Stack.echoes_session steps echoes
    refine ⟨Stack.echoes_twins _ _ later, fun step => ?_, fun gentle => ?_⟩
    · obtain ⟨answer, notes, -⟩ := Stack.echoes_advance step later
      exact ⟨answer, notes⟩
    · obtain ⟨-, counted', hand, manned'⟩ := Stack.orderly_session steps s gentle ⟨tame, counted, [], manned⟩
      exact Stack.counted_doubles _ _ (Stack.echoes_twins _ _ later) counted' (Stack.manned_alive _ hand manned')
  · obtain ⟨later, hand⟩ := echoes_run moves (c := c) (d := ⟨t, []⟩) echoes rfl
    refine ⟨Stack.echoes_twins _ _ later, hand, fun a => (Stack.echoes_act a later).1, fun lawful kept => ?_⟩
    obtain ⟨counted', manned'⟩ := run_counted moves c lawful kept manned counted
    exact Stack.counted_doubles _ _ (Stack.echoes_twins _ _ later) counted' (Stack.manned_alive _ _ manned')

def single : Scene := ⟨{ small.stack with link := .uplink { settings := {} } }, []⟩

theorem single_doubled :
    ∃ t, (⟨{ outstanding := 4 }, some (.uplink { settings := { duplicates := true } }), some {}, [{}], 1⟩ : Blueprint).build =
        .ok t ∧
      single.stack.Doubles t ∧ (single.run calmed).stack.Doubles ((Scene.mk t []).run calmed).stack ∧
      (single.run calmed).stack.hub.relay.map (·.tally.completions) = some 1 := by
  obtain ⟨t, built, sessions, runs⟩ := duplicates_unnoticed ⟨{ outstanding := 4 }, none, some {}, [{}], 1⟩ {} single.stack rfl
  obtain ⟨-, -, -, doubled⟩ := runs calmed
  exact ⟨t, built, (sessions []).2.2 (by simp), doubled calmed_lawful.1 calmed_lawful.2, rfl⟩

def reoffered : List Move :=
  [.act (.load 0 1 .none .plain), .take 0, .finish 0, .act (.grab 0 1 (some "a")),
    .act (.send ⟨"a", [7], 1, ⟨1⟩, .none, none, false, none⟩), .act (.retry (.exact ⟨0, 1⟩)), .take 0, .finish 0,
    .act (.uplink (.pump 1))]

-- The slot was given back with the event, so the one completion that the link reports counts as a duplicate.
theorem reoffered_counts_duplicate :
    single.Opens {} ∧ .dropRelay ∉ reoffered ∧ (∀ r, .act (.complete r) ∉ reoffered) ∧
      (single.run reoffered).stack.hub.relay.map (fun r => (r.tally.completions, r.tally.duplicateCompletions)) = some (0, 1) := by
  refine ⟨⟨⟨⟨{ outstanding := 4 }, some (.uplink { settings := {} }), some {}, [{}], 1⟩, rfl, rfl⟩, rfl⟩, ?_, ?_, rfl⟩
  · simp [reoffered]
  · simp [reoffered]

end Scene

end HubRelay
