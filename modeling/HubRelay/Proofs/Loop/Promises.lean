import HubRelay.Proofs.Loop.Stops

/-! A message that is put off while its nanoapp waits to be loaded. By the time of its retry the nanoapp is on the roster,
whatever was queued before the load, between the two, and after. -/

set_option autoImplicit false

namespace HubRelay

namespace Task

-- Whether the app is on the roster once the task is done, given whether it was there before.
def hosting (app : AppId) (present : Bool) : Task → Bool
  | .load badge program => present || (badge.app == app && program.starts)
  | .unload other => present && other != app
  | .event _ | .job _ | .stop => present

theorem hosting_kept (app : AppId) (tasks : List Task) (kept : .unload app ∉ tasks) : tasks.foldl (hosting app) true = true := by
  induction tasks with
  | nil => rfl
  | cons t rest ih =>
      have stays : hosting app true t = true := by
        cases t with
        | unload other =>
            have apart : other ≠ app := fun same => kept (same ▸ List.mem_cons_self)
            simp [hosting, apart]
        | event | job | load | stop => rfl
      rw [List.foldl_cons, stays]
      exact ih fun member => kept (List.mem_cons_of_mem t member)

theorem hosting_load (badge : Badge) (program : Program Action) (early late : List Task) (present : Bool)
    (starts : program.starts = true) (kept : .unload badge.app ∉ late) :
    (early ++ .load badge program :: late).foldl (hosting badge.app) present = true := by
  have loads : ∀ before, hosting badge.app before (.load badge program) = true := by simp [hosting, starts]
  rw [List.foldl_append, List.foldl_cons, loads]
  exact hosting_kept badge.app late kept

end Task

theorem RunLoop.badge_install (app : AppId) (a : Loaded) (l : RunLoop) (known : a.badge.app = app ∨ (l.badge? app).isSome = true) :
    ((l.install a).badge? app).isSome = true := by
  rw [badge?, install, List.find?_cons]
  split
  · rfl
  · next other => exact known.resolve_left fun same => by simp [same] at other

namespace Seat

variable (app : AppId)

def Hosts (s : Seat) : Prop :=
  (s.loop.badge? app).isSome = true ∨
    ∃ badge program, .install badge program ∈ s.hand ∧ badge.app = app ∧ program.starts = true

/-- The job comes up once `last` tasks were processed, and the app is there by then. -/
def Promised (j : Job) (last : Nat) (s : Seat) : Prop :=
  ∃ ahead rest present, s.loop.queue.toList = ahead ++ .job j :: rest ∧ s.log.processed.length + ahead.length = last ∧
    (present = true → s.Hosts app) ∧ ahead.foldl (Task.hosting app) present = true

theorem hosts_mono (s s' : Seat) (roster : s'.loop.roster = s.loop.roster) (hand : s.hand ⊆ s'.hand) (hosts : s.Hosts app) :
    s'.Hosts app := by
  rcases hosts with known | ⟨badge, program, member, same, starts⟩
  · refine .inl ?_
    rw [RunLoop.badge?, roster]
    exact known
  · exact .inr ⟨badge, program, hand member, same, starts⟩

variable (j : Job) (last : Nat)

theorem promised_pop (t : Task) (queue : Fifo Task) (s s' : Seat) (promised : s.Promised app j last)
    (waits : s.loop.queue.toList = t :: queue.toList) (left : s'.loop.queue = queue)
    (processed : s'.log.processed = s.log.processed ++ [t]) (early : s'.log.processed.length ≤ last)
    (hosts : ∀ present, (present = true → s.Hosts app) → t.hosting app present = true → s'.Hosts app) :
    s'.Promised app j last := by
  obtain ⟨ahead, rest, present, line, place, hosted, turns⟩ := promised
  rw [processed, List.length_append, List.length_singleton] at early
  cases ahead with
  | nil =>
      rw [List.length_nil] at place
      omega
  | cons first ahead =>
      rw [waits, List.cons_append] at line
      obtain ⟨rfl, behind⟩ := List.cons.inj line
      refine ⟨ahead, rest, t.hosting app present, left ▸ behind, ?_, hosts present hosted, turns⟩
      rw [processed, List.length_append, List.length_singleton]
      rw [List.length_cons] at place
      omega

theorem promised_aside (t : Task) (queue : Fifo Task) (s s' : Seat) (promised : s.Promised app j last)
    (waits : s.loop.queue.toList = t :: queue.toList) (left : s'.loop.queue = queue)
    (processed : s'.log.processed = s.log.processed ++ [t]) (early : s'.log.processed.length ≤ last)
    (plain : ∀ present, t.hosting app present = true → present = true) (roster : s'.loop.roster = s.loop.roster)
    (hand : s.hand ⊆ s'.hand) : s'.Promised app j last :=
  promised_pop app j last t queue s s' promised waits left processed early fun present hosted turns =>
    hosts_mono app s s' roster hand (hosted (plain present turns))

theorem promised_conclude (s s' : Seat) (promised : s.Promised app j last) (queue : s'.loop.queue = s.loop.queue)
    (processed : s'.log.processed = s.log.processed) (hosts : s.Hosts app → s'.Hosts app) : s'.Promised app j last := by
  obtain ⟨ahead, rest, present, line, place, hosted, turns⟩ := promised
  exact ⟨ahead, rest, present, queue ▸ line, processed ▸ place, fun here => hosts (hosted here), turns⟩

theorem hosts_load (badge : Badge) (program : Program Action) (present : Bool) (s' : Seat)
    (known : (s'.loop.badge? badge.app).isSome = true ∨ .install badge program ∈ s'.hand)
    (kept : present = true → s'.Hosts app) (turns : (Task.load badge program).hosting app present = true) : s'.Hosts app := by
  simp only [Task.hosting, Bool.or_eq_true, Bool.and_eq_true, beq_iff_eq] at turns
  rcases turns with here | ⟨rfl, starts⟩
  · exact kept here
  · exact known.imp_right fun held => ⟨badge, program, held, rfl, starts⟩

theorem hosts_strike (other : AppId) (present : Bool) (s s' : Seat) (roster : s'.loop.roster = (s.loop.strike other).roster)
    (hand : s.hand ⊆ s'.hand) (kept : present = true → s.Hosts app)
    (turns : (Task.unload other).hosting app present = true) : s'.Hosts app := by
  simp only [Task.hosting, Bool.and_eq_true, bne_iff_ne, ne_eq] at turns
  rcases kept turns.1 with known | ⟨badge, program, member, same, starts⟩
  · refine .inl ?_
    obtain ⟨badge, found⟩ := Option.isSome_iff_exists.mp known
    have listed := List.mem_of_find?_eq_some found
    have same : badge.app = app := by simpa using List.find?_some found
    rw [RunLoop.badge?, roster, RunLoop.strike, List.find?_isSome]
    refine ⟨badge, List.mem_filter.mpr ⟨listed, ?_⟩, by simp [same]⟩
    simpa [same] using Ne.symm turns.2
  · exact .inr ⟨badge, program, hand member, same, starts⟩

theorem hosts_released (rest : Epilogue) (s s' : Seat) (held : s.hand = rest ::ₘ s'.hand)
    (roster : s'.loop.roster = s.loop.roster) (refuses : ∀ badge program, rest = .install badge program → program.starts = false)
    (hosts : s.Hosts app) : s'.Hosts app := by
  rcases hosts with known | ⟨badge, program, member, same, starts⟩
  · exact hosts_mono app { s with hand := 0 } s' roster (Multiset.zero_subset _) (.inl known)
  · rw [held, Multiset.mem_cons] at member
    rcases member with rfl | member
    · rw [refuses badge program rfl] at starts
      cases starts
    · exact .inr ⟨badge, program, member, same, starts⟩

theorem hosts_install (badge : Badge) (program program' : Program Action) (s s' : Seat)
    (held : s.hand = .install badge program ::ₘ s'.hand) (loop : s'.loop = s.loop.install ⟨badge, program'⟩)
    (hosts : s.Hosts app) : s'.Hosts app := by
  rcases hosts with known | ⟨other, waiting, member, same, starts⟩
  · exact .inl (loop ▸ RunLoop.badge_install app ⟨badge, program'⟩ s.loop (.inr known))
  · rw [held, Multiset.mem_cons] at member
    rcases member with first | member
    · cases first
      exact .inl (loop ▸ RunLoop.badge_install app ⟨badge, program'⟩ s.loop (.inl same))
    · exact .inr ⟨other, waiting, member, same, starts⟩

theorem promised_turn (σ σ' : Stage) (s s' : Seat) (turn : Turn σ σ' s s')
    (promised : σ.isOpen = true → s.log.processed.length ≤ last → s.Promised app j last) (opened : σ'.isOpen = true)
    (early : s'.log.processed.length ≤ last) : s'.Promised app j last := by
  have begun : ∀ t : Task, s'.log.processed = s.log.processed ++ [t] → σ.isOpen = true → s.Promised app j last := by
    intro t processed still
    refine promised still (Nat.le_trans ?_ early)
    rw [processed, List.length_append]
    exact Nat.le_add_right _ _
  have kept : σ'.isOpen = σ.isOpen → s'.log.processed = s.log.processed → s.Promised app j last :=
    fun same processed => promised (same ▸ opened) (processed ▸ early)
  cases turn with
  | rest => exact promised opened early
  | pass e badge program queue waits loaded =>
      exact promised_aside app j last _ queue s _ (begun _ rfl rfl) waits rfl rfl early (fun _ => id) rfl
        (Multiset.subset_cons _ _)
  | miss e queue waits absent =>
      exact promised_aside app j last _ queue s _ (begun _ rfl rfl) waits rfl rfl early (fun _ => id) rfl
        (Multiset.subset_cons _ _)
  | job job queue waits begins =>
      exact promised_aside app j last _ queue s _ (begun _ rfl ((begin_load _ _ _ begins).2.2.1 ▸ opened)) waits rfl rfl early
        (fun _ => id) rfl (Multiset.subset_cons _ _)
  | load badge program queue waits fresh =>
      exact promised_pop app j last _ queue s _ (begun _ rfl rfl) waits rfl rfl early fun present hosted =>
        hosts_load app badge program present _ (.inr (Multiset.mem_cons_self _ _)) fun here =>
          hosts_mono app s _ rfl (Multiset.subset_cons _ _) (hosted here)
  | unload other badge a queue waits known loaded =>
      exact promised_pop app j last _ queue s _ (begun _ rfl rfl) waits rfl rfl early fun present =>
        hosts_strike app other present s _ rfl (Multiset.subset_cons _ _)
  | strike other badge queue waits known absent =>
      exact promised_pop app j last _ queue s _ (begun _ rfl rfl) waits rfl rfl early fun present =>
        hosts_strike app other present s _ rfl (Multiset.subset_cons _ _)
  | skip t queue waits idle =>
      refine promised_pop app j last t queue s _ (begun t rfl rfl) waits rfl rfl early fun present hosted turns => ?_
      have still : present = true → Seat.Hosts app { s with
          loop := { s.loop with queue := queue }, hand := .nothing ::ₘ s.hand, log := s.log.process t } :=
        fun here => hosts_mono app s _ rfl (Multiset.subset_cons _ _) (hosted here)
      cases t with
      | load badge program => exact hosts_load app badge program present _ (.inl idle) still turns
      | unload other => exact still (Bool.and_eq_true_iff.mp turns).1
      | stop => exact still turns
      | event | job => exact idle.elim
  | install badge program hand held starts concludes =>
      exact promised_conclude app j last s _ (kept (conclude_load _ _ concludes).2.2.1 rfl) rfl rfl
        (hosts_install app badge program _ s _ held rfl)
  | decline badge program hand held refuses concludes =>
      exact promised_conclude app j last s _ (kept (conclude_load _ _ concludes).2.2.1 rfl) rfl rfl
        (hosts_released app _ s _ held rfl fun b p same => by cases same; exact refuses)
  | quit hand held concludes =>
      exact promised_conclude app j last s _ (kept (conclude_load _ _ concludes).2.2.1 rfl) rfl rfl
        (hosts_released app _ s _ held rfl nofun)
  | consume e hand held concludes =>
      exact promised_conclude app j last s _ (kept (conclude_load _ _ concludes).2.2.1 rfl) rfl rfl
        (hosts_released app _ s _ held rfl nofun)
  | count rest hand held job concludes =>
      refine promised_conclude app j last s _ (kept (conclude_load _ _ concludes).2.2.1 rfl) rfl rfl
        (hosts_released app _ s _ held rfl fun b p same => ?_)
      subst same
      cases job
  | shut | dismiss | clear | drain | drop | leave => cases opened

theorem grow_roster (s s' : Seat) (grow : s.Grow s') : s'.loop.roster = s.loop.roster := by
  cases grow with
  | steer | halt | request => rfl
  | accept t l plain taken => rw [RunLoop.enqueue_cases t s.loop l taken]
  | load badge program l issued taken =>
      rw [RunLoop.enqueue_cases _ _ l taken]
      rfl

theorem promised_grow (s s' : Seat) (grow : s.Grow s') (promised : s.Promised app j last) : s'.Promised app j last := by
  obtain ⟨hand, more, queue, log⟩ := grows_queue s s' (.single grow)
  obtain ⟨ahead, rest, present, line, place, hosted, turns⟩ := promised
  refine ⟨ahead, rest ++ more, present, ?_, ?_, fun here => ?_, turns⟩
  · rw [queue, line, List.append_assoc, List.cons_append]
  · rw [log]
    exact place
  · exact hosts_mono app s s' (grow_roster s s' grow) (by rw [hand]; exact Multiset.Subset.refl _) (hosted here)

theorem promised_push (s s' : Seat) (badge : Badge) (program : Program Action) (early late : List Task)
    (queue : s'.loop.queue.toList = s.loop.queue.toList ++ [.job j]) (processed : s'.log.processed = s.log.processed)
    (order : s.InOrder) (waits : s.loop.queue.toList = early ++ .load badge program :: late)
    (starts : program.starts = true) (kept : .unload badge.app ∉ late) :
    s'.Promised badge.app j s.log.accepted.length := by
  refine ⟨s.loop.queue.toList, [], false, queue, ?_, nofun, ?_⟩
  · rw [processed, show s.log.accepted = s.log.processed ++ s.loop.queue.toList from order, List.length_append]
  · rw [waits]
    exact Task.hosting_load badge program early late false starts kept

theorem promised_due (s : Seat) (fits : s.Fits .ready) (promised : s.Promised app j last)
    (due : s.log.processed.length = last) :
    (∃ rest, s.loop.queue.toList = .job j :: rest) ∧ (s.loop.badge? app).isSome = true := by
  obtain ⟨ahead, rest, present, line, place, hosted, turns⟩ := promised
  have none : ahead = [] := List.eq_nil_of_length_eq_zero (by omega)
  subst none
  refine ⟨⟨rest, line⟩, (hosted turns).resolve_right ?_⟩
  rintro ⟨badge, program, member, -⟩
  rw [fits_idle .ready s fits rfl] at member
  exact Multiset.notMem_zero _ member

end Seat

namespace Hub

theorem receive_deferred (h next : Hub) (a : Arrival) (received : h.receive a = some (.deferred, next)) :
    ∃ r k l pushed, h.relay = some r ∧ h.loops[0]? = some l ∧ l.enqueue (.job (.retry k r.serial)) = .ok pushed ∧
      next.loops[0]? = some pushed ∧ .arrived r.serial a .deferred ∈ next.history := by
  obtain ⟨r, relay, -⟩ := Option.map_eq_some_iff.mp received
  simp only [receive, relay, Option.map_some, Option.some.injEq, Prod.mk.injEq] at received
  obtain ⟨routing, same⟩ := received
  have arrived : .arrived r.serial a .deferred ∈ next.history := by
    rw [← same, ← routing]
    exact List.mem_cons_self
  have loops : next.loops = (h.route a r).2.loops := by
    rw [← same]
    rfl
  rcases route_cases h r a with ⟨failure, rejected⟩ | ⟨k, pool, -, routed⟩
  · rw [rejected] at routing
    cases routing
  · rcases attempt_cases (h.lent pool r) k ⟨a.message, none, r.serial⟩ with
      ⟨-, attempted⟩ | ⟨i, badge, -, ⟨after, -, attempted⟩ | ⟨failure, -, attempted⟩⟩
    · rw [routed, attempted] at routing loops
      simp only [putOff] at routing loops
      split at routing
      · next after queued =>
          obtain ⟨l, pushed, place, taken, rfl⟩ := enqueue_cases _ after 0 _ queued
          rw [queued] at loops
          refine ⟨r, k, l, pushed, relay, place, taken, ?_, arrived⟩
          rw [loops]
          exact List.getElem?_set_self (List.getElem?_eq_some_iff.mp place).1
      · cases routing
    · rw [routed, attempted] at routing
      cases routing
    · rw [routed, attempted] at routing
      cases routing

theorem retry_known (k : Handle) (h : Hub)
    (known : ∀ parcel, h.relay.bind (·.pool.live? k) = some parcel → (h.locate parcel.message.app).isSome = true) :
    (h.retry k).2.standing.unknownDestination = h.standing.unknownDestination := by
  unfold retry
  cases live : h.relay.bind (·.pool.live? k) with
  | none => rfl
  | some parcel =>
      have tried := congrArg Standing.unknownDestination (standing_attempt h k parcel)
      rcases attempt_cases h k parcel with ⟨nowhere, -⟩ | ⟨i, badge, -, ⟨next, -, attempted⟩ | ⟨failure, -, attempted⟩⟩
      · have somewhere := known parcel live
        rw [nowhere] at somewhere
        cases somewhere
      · rw [attempted] at tried
        simp only [attempted]
        refine Eq.trans ?_ tried
        simp only [standing, tally, count, onRelay, Option.map_map]
        cases (next.record (.posted parcel.serial i badge)).relay <;> rfl
      · rw [attempted] at tried
        simp only [attempted]
        exact tried

theorem retry_posted (k : Handle) (h : Hub) (parcel : Parcel) (i : Nat) (badge : Badge) (l : RunLoop)
    (live : h.relay.bind (·.pool.live? k) = some parcel) (located : h.locate parcel.message.app = some (i, badge))
    (place : h.loops[i]? = some l) (opened : ¬l.Closed) (room : ¬l.Full) :
    (h.retry k).1 = true ∧ (h.retry k).2.standing.deferredDelivered = h.standing.deferredDelivered + 1 ∧
      ∃ pushed, (h.retry k).2.loops = h.loops.set i pushed ∧
        pushed.queue.toList = l.queue.toList ++ [.event (parcel.event k badge.inst)] := by
  obtain ⟨r, relay, -⟩ := Option.bind_eq_some_iff.mp live
  rcases attempt_cases h k parcel with ⟨nowhere, -⟩ | ⟨j, badge', located', ⟨next, queued, attempted⟩ | ⟨failure, refused, -⟩⟩
  · rw [nowhere] at located
    cases located
  · rw [located] at located'
    cases located'
    obtain ⟨l', pushed, place', taken, rfl⟩ := enqueue_cases h next i _ queued
    rw [place] at place'
    cases place'
    simp only [retry, live, attempted]
    refine ⟨trivial, ?_, pushed, rfl, ?_⟩
    · simp only [standing, tally, count, onRelay, record, relay]
      rfl
    · rw [RunLoop.enqueue_cases _ l pushed taken]
      exact Fifo.toList_push _ _
  · rw [located] at located'
    cases located'
    rcases enqueue_refused h i _ failure l refused place with closed | ⟨-, full⟩
    · exact absurd closed opened
    · exact absurd full room

theorem locate_first (h : Hub) (app : AppId) (l : RunLoop) (registered : 0 < h.registered) (place : h.loops[0]? = some l)
    (known : (l.badge? app).isSome = true) : ∃ badge, h.locate app = some (0, badge) := by
  obtain ⟨badge, found⟩ := Option.isSome_iff_exists.mp known
  obtain ⟨n, count⟩ := Nat.exists_eq_succ_of_ne_zero (Nat.ne_of_gt registered)
  refine ⟨badge, ?_⟩
  cases loops : h.loops with
  | nil =>
      rw [loops] at place
      cases place
  | cons first rest =>
      rw [loops] at place
      cases place
      simp [locate, loops, count, found]

end Hub

theorem Blueprint.build_first (b : Blueprint) (s : Stack) (built : b.build = .ok s) : ∃ l, s.loop? 0 = some l := by
  unfold build at built
  split at built
  · cases built
  · cases built
  · split at built
    · cases built
    · next some =>
        split at built
        · cases built
        · cases built
          cases loops : b.loops with
          | nil => exact absurd (by simp [loops]) some
          | cons settings rest => exact ⟨{ settings := settings }, by simp [Stack.loop?]⟩

namespace Scene

theorem run_promised (i last : Nat) (app : AppId) (j : Job) (moves : List Move) (c : Scene) (σ σ' : Stage) (s : Seat)
    (sits : s.Sits i c) (fits : s.Fits σ) (promised : s.Promised app j last) (after : σ.after i moves c = some σ')
    (opened : σ'.isOpen = true) (early : (c.logs i moves s.log).processed.length ≤ last) :
    ∃ s' : Seat, s'.Sits i (c.run moves) ∧ s'.log = c.logs i moves s.log ∧ s'.Fits σ' ∧ s'.Promised app j last := by
  obtain ⟨s', sits', log, fits', kept⟩ := run_seat i
    (fun σ s => s.Fits σ ∧ (σ.isOpen = true → s.log.processed.length ≤ last → s.Promised app j last))
    (fun s held => held.1.stopped rfl)
    (fun σ σ' s s' turn held => ⟨Seat.fits_turn σ σ' s s' turn held.1, Seat.promised_turn app j last σ σ' s s' turn held.2⟩)
    (fun σ s s' grow held => ⟨Seat.fits_grow σ s s' grow held.1, fun opened early => by
      obtain ⟨-, more, -, log⟩ := Seat.grows_queue s s' (.single grow)
      rw [log] at early
      exact Seat.promised_grow app j last s s' grow (held.2 opened early)⟩)
    moves c σ σ' s sits ⟨fits, fun _ _ => promised⟩ after
  exact ⟨s', sits', log, fits', kept opened (log ▸ early)⟩

theorem deliver_deferred (c : Scene) (a : Arrival) (viaLink : Bool)
    (deferred : (c.stack.act (.deliver a viaLink)).1 = .routed (some .deferred)) :
    c.stack.hub.receive a = some (.deferred, (c.move (.act (.deliver a viaLink))).stack.hub) := by
  simp only [move, onStack, Stack.act] at deferred ⊢
  split at deferred
  · next routing hub received =>
      cases deferred
      exact received
  · cases viaLink <;> cases deferred

theorem deliver_promised (c : Scene) (before : List Move) (a : Arrival) (viaLink : Bool) (early late : List Task)
    (badge : Badge) (program : Program Action) (σ : Stage) (starts : c.Starts)
    (deferred : ((c.run before).stack.act (.deliver a viaLink)).1 = .routed (some .deferred))
    (waits : (c.run before).queued 0 = early ++ .load badge program :: late) (willing : program.starts = true)
    (kept : .unload badge.app ∉ late) (after : Stage.ready.after 0 before c = some σ) (opened : σ.isOpen = true) :
    ∃ (r : Relay) (k : Handle) (s : Seat), (c.run before).stack.hub.relay = some r ∧
      .arrived r.serial a .deferred ∈ ((c.run before).move (.act (.deliver a viaLink))).stack.hub.history ∧
      s.Sits 0 ((c.run before).move (.act (.deliver a viaLink))) ∧ s.Fits σ ∧
      s.log = (c.run before).observe 0 (.act (.deliver a viaLink)) (c.log 0 before) ∧
      s.Promised badge.app (.retry k r.serial) (c.log 0 before).accepted.length := by
  obtain ⟨r, k, l, pushed, relay, place, taken, next, arrived⟩ :=
    Hub.receive_deferred _ _ a (deliver_deferred (c.run before) a viaLink deferred)
  obtain ⟨b, built⟩ := starts.built
  obtain ⟨first, there⟩ := b.build_first c.stack built
  obtain ⟨s₀, sits₀, log₀, fits₀, order, -⟩ := run_open 0 before c σ first starts there after opened
  obtain ⟨s, sits, log, fits⟩ := run_seat 0 (fun σ s => s.Fits σ) (fun s fits => fits.stopped rfl) Seat.fits_turn
    Seat.fits_grow [.act (.deliver a viaLink)] (c.run before) σ σ s₀ sits₀ fits₀ rfl
  have here : l = s₀.loop := Option.some.inj (place.symm.trans sits₀.shows.place)
  have now : pushed = s.loop := Option.some.inj (next.symm.trans sits.shows.place)
  subst here now
  refine ⟨r, k, s, relay, arrived, sits, fits, log₀ ▸ log, ?_⟩
  rw [← log₀]
  refine Seat.promised_push _ s₀ s badge program early late ?_ ?_ order ?_ willing kept
  · rw [RunLoop.enqueue_cases _ _ _ taken]
    exact Fifo.toList_push _ _
  · rw [log]
    exact List.append_nil _
  · rw [← sits_queued 0 _ s₀ sits₀]
    exact waits

theorem deferred_held (link : LinkSettings) (c : Scene) (before later : List Move) (i n : Nat) (k : Handle) (next : Stack)
    (a : Arrival) (opens : c.Opens link) (lawful : ∀ m ∈ before ++ later, m.Lawful) (kept : .dropRelay ∉ before ++ later)
    (arrived : .arrived n a .deferred ∈ (c.run before).stack.hub.history)
    (taken : (c.run (before ++ later)).stack.next? i = some (.job (.retry k n), next)) :
    next.hub.relay.bind (·.pool.live? k) = some ⟨a.message, none, n⟩ := by
  obtain ⟨a', routing, arrived', held⟩ := retry_held link c _ i n k next opens lawful kept taken
  have linked := (run_sound link c before opens fun m member => lawful m (List.mem_append_left _ member)).1
  have still := run_history later _ (fun m member => lawful m (List.mem_append_right _ member)) linked _ arrived
  have apart := (run_sound link c _ opens lawful).2.numbered.apart
  rw [run_append] at apart arrived'
  cases Traffic.numbered_unique _ apart _ _ n arrived' still rfl rfl
  exact held

theorem retry_due (c : Scene) (s : Seat) (k : Handle) (n : Nat) (app : AppId) (rest : List Task) (sits : s.Sits 0 c)
    (line : s.loop.queue.toList = .job (.retry k n) :: rest) (known : (s.loop.badge? app).isSome = true)
    (opened : ¬s.loop.Closed) (registered : 0 < c.stack.hub.registered) :
    ∃ next host, c.stack.next? 0 = some (.job (.retry k n), next) ∧ next.hub.locate app = some (0, host) ∧
      ∀ parcel, next.hub.relay.bind (·.pool.live? k) = some parcel → parcel.message.app = app →
        (∀ l, next.loop? 0 = some l → ¬l.Full) →
          (next.hub.retry k).1 = true ∧
            (next.hub.retry k).2.standing.deferredDelivered = next.hub.standing.deferredDelivered + 1 ∧
            (c.move (.take 0)).queued 0 = rest ++ [.event (parcel.event k host.inst)] := by
  cases taken : c.stack.next? 0 with
  | none =>
      have empty := queued_none 0 c taken
      rw [sits_queued 0 c s sits, line] at empty
      cases empty
  | some found =>
      obtain ⟨t, next⟩ := found
      obtain ⟨l, queue, here, popped, change⟩ := Stack.next_cases 0 t c.stack next taken
      have current : s.loop = l := Option.some.inj (sits.shows.place.symm.trans here)
      subst current
      rw [line] at popped
      obtain ⟨rfl, behind⟩ := List.cons.inj popped
      have spot : next.loop? 0 = some { s.loop with queue := queue } := by
        rw [change]
        exact List.getElem?_set_self (List.getElem?_eq_some_iff.mp here).1
      obtain ⟨host, located⟩ := next.hub.locate_first app _ (by rw [change]; exact registered) spot known
      refine ⟨next, host, rfl, located, fun parcel held aimed room => ?_⟩
      obtain ⟨answered, counted, pushed, loops, line'⟩ := Hub.retry_posted k next.hub parcel 0 host
        { s.loop with queue := queue } held (aimed ▸ located) spot opened (room _ spot)
      have moved := (move_retries (.take 0) c k next ⟨0, n, rfl, taken⟩).1
      have after : (c.move (.take 0)).stack.loop? 0 = some pushed := by
        rw [Stack.loop?, moved, loops]
        exact List.getElem?_set_self (List.getElem?_eq_some_iff.mp spot).1
      refine ⟨answered, counted, ?_⟩
      rw [queued, after, Option.map_some, Option.getD_some, line', behind]

/-- A message that is put off while a load of its nanoapp is queued that will start, with no unload of it behind. When the
retry of the message comes to its turn, and the loop has not stopped by then, the nanoapp is on the roster of the first
loop. The message is not counted as one that went astray, and it reaches the queue if the loop has room for an event and if
the message is still in its slot: it always is as long as completions are left to the link and retries to their job. -/
theorem deferral_honoured (c : Scene) (before later : List Move) (a : Arrival) (viaLink : Bool) (early late : List Task)
    (badge : Badge) (program : Program Action) (starts : c.Starts)
    (deferred : ((c.run before).stack.act (.deliver a viaLink)).1 = .routed (some .deferred))
    (waits : (c.run before).queued 0 = early ++ .load badge program :: late) (same : badge.app = a.app)
    (willing : program.starts = true) (kept : .unload a.app ∉ late)
    (ready : Stage.ready.after 0 (before ++ .act (.deliver a viaLink) :: later) c = some .ready)
    (due : (c.log 0 (before ++ .act (.deliver a viaLink) :: later)).processed.length = (c.log 0 before).accepted.length) :
    let reached := c.run (before ++ .act (.deliver a viaLink) :: later)
    ∃ (r : Relay) (k : Handle) (next : Stack) (host : Badge),
      (c.run before).stack.hub.relay = some r ∧
      reached.stack.next? 0 = some (.job (.retry k r.serial), next) ∧
      next.hub.locate a.app = some (0, host) ∧
      ((∀ p, next.hub.relay.bind (·.pool.live? k) = some p → p.message.app = a.app) →
        (next.hub.retry k).2.standing.unknownDestination = next.hub.standing.unknownDestination) ∧
      (next.hub.relay.bind (·.pool.live? k) = some ⟨a.message, none, r.serial⟩ →
        (∀ l, next.loop? 0 = some l → ¬l.Full) →
          (next.hub.retry k).1 = true ∧
            (next.hub.retry k).2.standing.deferredDelivered = next.hub.standing.deferredDelivered + 1 ∧
            (reached.move (.take 0)).queued 0 =
              (reached.queued 0).tail ++ [.event (Parcel.event k host.inst ⟨a.message, none, r.serial⟩)]) ∧
      ∀ link, c.Opens link → (∀ m ∈ before ++ .act (.deliver a viaLink) :: later, m.Lawful) →
        .dropRelay ∉ before ++ .act (.deliver a viaLink) :: later →
          next.hub.relay.bind (·.pool.live? k) = some ⟨a.message, none, r.serial⟩ := by
  intro reached
  have split : reached = ((c.run before).move (.act (.deliver a viaLink))).run later := run_append before _ c
  have whole : c.log 0 (before ++ .act (.deliver a viaLink) :: later) =
      ((c.run before).move (.act (.deliver a viaLink))).logs 0 later
        ((c.run before).observe 0 (.act (.deliver a viaLink)) (c.log 0 before)) := logs_append 0 before _ c {}
  obtain ⟨σ, first, rest⟩ := Option.bind_eq_some_iff.mp ((Stage.after_append 0 before _ c .ready).symm.trans ready)
  have after : σ.after 0 later ((c.run before).move (.act (.deliver a viaLink))) = some .ready := rest
  have opened := Stage.after_open 0 later _ σ .ready after rfl
  obtain ⟨r, k, s, relay, arrived, sits, fits, log, promised⟩ :=
    deliver_promised c before a viaLink early late badge program σ starts deferred waits willing (same ▸ kept) first opened
  obtain ⟨s', sits', log', fits', promised'⟩ := run_promised 0 _ badge.app _ later _ σ .ready s sits fits promised after rfl
    (by rw [log, ← whole, due])
  obtain ⟨⟨behind, line⟩, known⟩ := Seat.promised_due badge.app _ _ s' fits' promised' (by rw [log', log, ← whole, due])
  rw [← split] at sits'
  obtain ⟨b, built⟩ := starts.built
  obtain ⟨loop, there⟩ := b.build_first c.stack built
  obtain ⟨positive, standing⟩ := b.build_standing c.stack built
  obtain ⟨s'', sits'', -, -, -, live, -⟩ := run_open 0 _ c .ready loop starts there ready rfl
  have opened' : ¬s'.loop.Closed := by
    have seats : s''.loop = s'.loop := Option.some.inj (sits''.shows.place.symm.trans sits'.shows.place)
    rw [← seats, RunLoop.Closed, (live rfl).1, (live rfl).2]
    simp
  have registered : 0 < reached.stack.hub.registered := by
    have steady : reached.stack.hub.registered = c.stack.hub.registered := run_steady _ c
    rw [steady, show c.stack.hub.registered = b.registered from congrArg Standing.registered standing]
    exact positive
  obtain ⟨next, host, taken, located, posts⟩ := retry_due reached s' k r.serial a.app behind sits' line (same ▸ known) opened'
    registered
  refine ⟨r, k, next, host, relay, taken, located, fun own => ?_, fun held room => ?_, fun link opens lawful kept => ?_⟩
  · exact Hub.retry_known k next.hub fun p live => by rw [own p live, located]; rfl
  · obtain ⟨answered, counted, queued⟩ := posts _ held rfl room
    rw [sits_queued 0 reached s' sits', line]
    exact ⟨answered, counted, queued⟩
  · have lead : before ++ .act (.deliver a viaLink) :: later = (before ++ [.act (.deliver a viaLink)]) ++ later := by simp
    rw [lead] at lawful kept
    refine deferred_held link c _ later 0 r.serial k next a opens lawful kept ?_ ?_
    · rw [run_append]
      exact arrived
    · rw [← lead]
      exact taken

def expecting : List Move := [.act (.load 0 1 .none .plain)]

def expected : Arrival := ⟨1, 1, ⟨1⟩, [9]⟩

theorem expected_reaches :
    ∃ k next host, (small.run (expecting ++ .act (.deliver expected true) :: [.take 0, .finish 0])).stack.next? 0 =
        some (.job (.retry k 0), next) ∧ next.hub.locate 1 = some (0, host) ∧ (next.hub.retry k).1 = true := by
  obtain ⟨b, -, built⟩ := small_opens.built
  obtain ⟨r, k, next, host, relay, taken, located, -, posts, held⟩ := deferral_honoured small expecting [.take 0, .finish 0]
    expected true [] [] ⟨1, 1, .none, 0⟩ .plain ⟨⟨b, built⟩, rfl⟩ rfl rfl rfl rfl (by simp) rfl rfl
  have live := held _ small_opens (by simp [expecting, Move.Lawful, Action.Lawful]) (by simp [expecting])
  have serial : r.serial = 0 := by
    cases relay
    rfl
  rw [serial] at taken
  have room : ∀ l, next.loop? 0 = some l → ¬l.Full := by
    intro l place
    cases taken
    cases place
    exact fun full => full (by decide)
  exact ⟨k, next, host, taken, located, (posts live room).1⟩

-- Another than its job retries the message first, and it strays. The job then finds its slot empty.
theorem early_retry_strays :
    small.Starts ∧
      ((small.run expecting).stack.act (.deliver expected true)).1 = .routed (some .deferred) ∧
      (small.run expecting).queued 0 = [.load ⟨1, 1, .none, 0⟩ .plain] ∧
      Stage.ready.after 0 (expecting ++ .act (.deliver expected true) :: [.act (.retry (.exact ⟨0, 1⟩)), .take 0, .finish 0])
        small = some .ready ∧
      ∃ next l, (small.run (expecting ++ .act (.deliver expected true) ::
            [.act (.retry (.exact ⟨0, 1⟩)), .take 0, .finish 0])).stack.next? 0 = some (.job (.retry ⟨0, 1⟩ 0), next) ∧
        next.hub.locate 1 = some (0, ⟨1, 1, .none, 0⟩) ∧ next.loop? 0 = some l ∧ ¬l.Closed ∧ ¬l.Full ∧
        (next.hub.retry ⟨0, 1⟩).1 = false ∧ (next.hub.retry ⟨0, 1⟩).2.standing.deferredDelivered = 0 := by
  obtain ⟨b, -, built⟩ := small_opens.built
  refine ⟨⟨⟨b, built⟩, rfl⟩, rfl, rfl, by decide, _, _, rfl, by decide, rfl, ?_, ?_, by decide, by decide⟩
  · exact fun closed => closed.elim nofun nofun
  · exact fun full => full (by decide)

end Scene

end HubRelay
