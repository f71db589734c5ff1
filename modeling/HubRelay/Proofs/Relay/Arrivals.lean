import HubRelay.Proofs.Relay.Sends

/-! Arrivals, to the letter: where a message from the host goes, and all that changes. -/

set_option autoImplicit false

namespace HubRelay

theorem Endpoint.broadcast_iff (e : Endpoint) : e.isBroadcast = true ↔ e.code = 0xFFFF := by
  obtain ⟨code⟩ := e
  simp [isBroadcast, broadcast]

namespace RunLoop

-- The loop exists yet, or it was stopped, as it is once it was run to its end.
def Remains (l : RunLoop) : Prop := l.attached = true ∨ l.stopped = true

def Counts (l : RunLoop) : Prop := l.attached = true → l.queuedEvents = l.queue.toList.countP Task.isEvent

def events (l : RunLoop) : Nat := l.queue.toList.countP Task.isEvent

def takingEvent (e : Event) (l : RunLoop) : RunLoop :=
  { l with queue := l.queue.push (.event e), queuedEvents := l.queuedEvents + 1 }

def takingJob (j : Job) (l : RunLoop) : RunLoop := { l with queue := l.queue.push (.job j) }

variable (l : RunLoop) (remains : l.Remains)

include remains

theorem running_attached (running : l.stopped = false) : l.attached = true :=
  remains.resolve_right (by rw [running]; exact Bool.false_ne_true)

theorem event_taken (e : Event) (counts : l.Counts) (running : l.stopped = false)
    (room : l.events < l.settings.eventCapacity) : l.enqueue (.event e) = .ok (l.takingEvent e) := by
  have attached := l.running_attached remains running
  have counted : l.queuedEvents = l.events := counts attached
  simp only [enqueue, running, Task.isEvent, counted, room, attached, takingEvent, decide_true, Bool.not_true,
    Bool.and_false, Bool.false_eq_true, if_false, if_true]

theorem event_refused (e : Event) (counts : l.Counts) (closed : l.stopped = true ∨ l.settings.eventCapacity ≤ l.events) :
    ∃ failure, l.enqueue (.event e) = .error failure := by
  cases stopped : l.stopped with
  | true => exact ⟨.stopped, by simp only [enqueue, stopped, if_true]⟩
  | false =>
      have full := closed.resolve_left (by rw [stopped]; exact Bool.false_ne_true)
      have counted : l.queuedEvents = l.events := counts (l.running_attached remains stopped)
      refine ⟨.queueFull, ?_⟩
      simp only [enqueue, stopped, Task.isEvent, counted, Nat.not_lt.mpr full, decide_false, Bool.not_false, Bool.and_self,
        Bool.false_eq_true, if_false, if_true]

theorem job_taken (j : Job) (running : l.stopped = false) : l.enqueue (.job j) = .ok (l.takingJob j) := by
  simp only [enqueue, running, Task.isEvent, l.running_attached remains running, takingJob, Bool.false_and, Bool.not_true,
    Bool.false_eq_true, if_false]

end RunLoop

namespace Hub

variable (a : Arrival) (r : Relay)

/-- Where a message from the host goes. Only the first of the loops that host its app is asked, or else the first of all. -/
inductive Routes (h : Hub) : Routing → Prop
  | broadcast (code : a.endpoint.code = 0xFFFF) : Routes h (.rejected .broadcastSource)
  | exhausted (client : a.endpoint.code ≠ 0xFFFF) (full : ¬r.pool.HasVacant) : Routes h (.rejected .poolExhausted)
  | delivered (client : a.endpoint.code ≠ 0xFFFF) (vacant : r.pool.HasVacant) (i : Nat) (badge : Badge) (l : RunLoop)
      (hosts : h.Hosts a.app i badge) (place : h.loops[i]? = some l) (running : l.stopped = false)
      (room : l.events < l.settings.eventCapacity) : Routes h .delivered
  | crowded (client : a.endpoint.code ≠ 0xFFFF) (vacant : r.pool.HasVacant) (i : Nat) (badge : Badge) (l : RunLoop)
      (hosts : h.Hosts a.app i badge) (place : h.loops[i]? = some l)
      (closed : l.stopped = true ∨ l.settings.eventCapacity ≤ l.events) : Routes h (.rejected .unavailable)
  | deferred (client : a.endpoint.code ≠ 0xFFFF) (vacant : r.pool.HasVacant) (l : RunLoop) (nowhere : h.Nowhere a.app)
      (place : h.loops[0]? = some l) (running : l.stopped = false) : Routes h .deferred
  | stranded (client : a.endpoint.code ≠ 0xFFFF) (vacant : r.pool.HasVacant) (l : RunLoop) (nowhere : h.Nowhere a.app)
      (place : h.loops[0]? = some l) (stopped : l.stopped = true) : Routes h (.rejected .unavailable)

/-- What is left of a message from the host. It waits in the loop that takes it and holds a slot that was vacant; or it was
turned down, and no loop and no slot that is taken is different. It is counted once, as what became of it. -/
inductive Received (h : Hub) : Routing → Hub → Prop
  | delivered (k : Handle) (pool : SlotPool Parcel) (i : Nat) (badge : Badge) (l : RunLoop) (hosts : h.Hosts a.app i badge)
      (place : h.loops[i]? = some l) (lends : SlotPool.Lends k ⟨a.message, none, r.serial⟩ r.pool pool) :
      Received h .delivered { h with
        loops := h.loops.set i (l.takingEvent (Parcel.event k badge.inst ⟨a.message, none, r.serial⟩))
        relay := some { r with pool := pool, tally := { r.tally with delivered := r.tally.delivered + 1 }, serial := r.serial + 1 }
        history := .arrived r.serial a .delivered :: .posted r.serial i badge :: h.history }
  | deferred (k : Handle) (pool : SlotPool Parcel) (l : RunLoop) (place : h.loops[0]? = some l)
      (lends : SlotPool.Lends k ⟨a.message, none, r.serial⟩ r.pool pool) :
      Received h .deferred { h with
        loops := h.loops.set 0 (l.takingJob (.retry k r.serial))
        relay := some { r with pool := pool, tally := { r.tally with deferred := r.tally.deferred + 1 }, serial := r.serial + 1 }
        history := .arrived r.serial a .deferred :: h.history }
  | rejected (failure : RouteFailure) (pool : SlotPool Parcel) (free : pool.free = r.pool.free)
      (occupied : pool.occupied = r.pool.occupied) (kept : if failure = .unavailable then r.pool.Renewed pool else pool = r.pool) :
      Received h (.rejected failure) { h with
        relay := some { r with
          pool := pool, tally := { r.tally with rejectedInbound := r.tally.rejectedInbound + 1 }, serial := r.serial + 1 }
        history := .arrived r.serial a (.rejected failure) :: h.history }

section

variable (h : Hub)

theorem enqueue_here (i : Nat) (t : Task) (l next : RunLoop) (place : h.loops[i]? = some l) (taken : l.enqueue t = .ok next) :
    h.enqueue i t = .ok { h with loops := h.loops.set i next } := by
  simp only [enqueue, place, taken]

theorem enqueue_turned (i : Nat) (t : Task) (l : RunLoop) (failure : LoopFailure) (place : h.loops[i]? = some l)
    (refused : l.enqueue t = .error failure) : h.enqueue i t = .error failure := by
  simp only [enqueue, place, refused]

theorem route_lent (k : Handle) (pool : SlotPool Parcel) (client : a.endpoint.code ≠ 0xFFFF)
    (small : a.payload.length ≤ largestArrival) (allocated : r.pool.allocate ⟨a.message, none, r.serial⟩ = some (k, pool)) :
    h.route a r =
      match (h.lent pool r).attempt k ⟨a.message, none, r.serial⟩ with
      | (.posted, h) => (.delivered, h)
      | (.refused, h) => (.rejected .unavailable, h)
      | (.unknown, h) => h.putOff k r.serial := by
  have single : ¬a.endpoint.isBroadcast = true := fun broadcast => client ((Endpoint.broadcast_iff _).mp broadcast)
  simp only [route, if_neg single, if_neg (Nat.not_lt.mpr small), allocated]
  rfl

theorem attempt_posted (h : Hub) (k : Handle) (parcel : Parcel) (i : Nat) (badge : Badge) (l next : RunLoop)
    (located : h.locate parcel.message.app = some (i, badge)) (place : h.loops[i]? = some l)
    (taken : l.enqueue (.event (parcel.event k badge.inst)) = .ok next) :
    h.attempt k parcel = (.posted, { h with
      loops := h.loops.set i next
      history := .posted parcel.serial i badge :: h.history }) := by
  simp only [attempt, located, h.enqueue_here i _ l next place taken, record]

theorem attempt_refused (h : Hub) (k : Handle) (parcel : Parcel) (i : Nat) (badge : Badge) (l : RunLoop) (failure : LoopFailure)
    (located : h.locate parcel.message.app = some (i, badge)) (place : h.loops[i]? = some l)
    (refused : l.enqueue (.event (parcel.event k badge.inst)) = .error failure) :
    h.attempt k parcel = (.refused, h.reclaim k) := by
  simp only [attempt, located, h.enqueue_turned i _ l failure place refused]
  rfl

theorem attempt_unknown (h : Hub) (k : Handle) (parcel : Parcel) (nowhere : h.locate parcel.message.app = none) :
    h.attempt k parcel = (.unknown, h) := by
  simp only [attempt, nowhere]

theorem reclaim_arrived (k : Handle) (pool : SlotPool Parcel) (sound : r.pool.Sound)
    (allocated : r.pool.allocate ⟨a.message, none, r.serial⟩ = some (k, pool)) :
    (h.lent pool r).reclaim k = { h with relay := some { r with pool := pool.reclaimed k } } := by
  have live := (SlotPool.allocated_live _ r.pool pool k k sound allocated).2
  rw [if_pos rfl] at live
  exact h.reclaim_lent k pool r _ live

theorem receive_routed (routing : Routing) (next : Hub) (r' : Relay) (relay : h.relay = some r)
    (routed : h.route a r = (routing, next)) (relay' : next.relay = some r') :
    h.receive a = some (routing, { next with
      relay := some { r' with tally := r'.tally.countRouting routing, serial := r'.serial + 1 }
      history := .arrived r.serial a routing :: next.history }) := by
  simp only [receive, relay, Option.map_some, routed, count, onRelay, relay', record, passSerial]

variable {a r h}

theorem early_received (failure : RouteFailure) (relay : h.relay = some r) (other : failure ≠ .unavailable)
    (routed : h.route a r = (.rejected failure, h)) :
    ∃ next, h.receive a = some (.rejected failure, next) ∧ Received a r h (.rejected failure) next :=
  ⟨_, receive_routed a r h _ h r relay routed relay, .rejected failure r.pool rfl rfl (by rw [if_neg other])⟩

theorem bounced_received (k : Handle) (pool : SlotPool Parcel) (relay : h.relay = some r) (sound : r.pool.Sound)
    (allocated : r.pool.allocate ⟨a.message, none, r.serial⟩ = some (k, pool))
    (routed : h.route a r = (.rejected .unavailable, (h.lent pool r).reclaim k)) :
    ∃ next, h.receive a = some (.rejected .unavailable, next) ∧ Received a r h (.rejected .unavailable) next := by
  rw [reclaim_arrived a r h k pool sound allocated] at routed
  have renewed := r.pool.allocate_renewed _ pool k sound allocated
  exact ⟨_, receive_routed a r h _ _ _ relay routed rfl,
    .rejected .unavailable (pool.reclaimed k) renewed.free renewed.occupied (by rw [if_pos rfl]; exact renewed)⟩

theorem routes_received (routing : Routing) (relay : h.relay = some r) (sound : r.pool.Sound)
    (small : a.payload.length ≤ largestArrival) (remain : ∀ i l, h.loops[i]? = some l → i < h.registered → l.Remains)
    (counts : ∀ (i : Nat) (l : RunLoop), h.loops[i]? = some l → l.Counts) (manned : 0 < h.registered)
    (routes : Routes a r h routing) : ∃ next, h.receive a = some (routing, next) ∧ Received a r h routing next := by
  have granted := r.pool.vacant_allocates ⟨a.message, none, r.serial⟩ sound
  cases routes with
  | broadcast code =>
      refine early_received _ relay (by simp) ?_
      simp only [route, (Endpoint.broadcast_iff _).mpr code, if_true]
  | exhausted client full =>
      refine early_received _ relay (by simp) ?_
      have single : ¬a.endpoint.isBroadcast = true := fun broadcast => client ((Endpoint.broadcast_iff _).mp broadcast)
      simp only [route, if_neg single, if_neg (Nat.not_lt.mpr small), r.pool.full_refuses ⟨a.message, none, r.serial⟩ sound full]
  | delivered client vacant i badge l hosts place running room =>
      obtain ⟨k, pool, allocated⟩ := granted vacant
      have taken := l.event_taken (remain i l place hosts.registered) (Parcel.event k badge.inst ⟨a.message, none, r.serial⟩)
        (counts i l place) running room
      have routed := route_lent a r h k pool client small allocated
      rw [attempt_posted (h.lent pool r) k _ i badge l _ (h.hosts_located _ i badge hosts) place taken] at routed
      exact ⟨_, receive_routed a r h _ _ _ relay routed rfl,
        .delivered k pool i badge l hosts place (SlotPool.allocate_lends _ r.pool pool k sound allocated)⟩
  | crowded client vacant i badge l hosts place closed =>
      obtain ⟨k, pool, allocated⟩ := granted vacant
      obtain ⟨failure, refused⟩ := l.event_refused (remain i l place hosts.registered)
        (Parcel.event k badge.inst ⟨a.message, none, r.serial⟩) (counts i l place) closed
      have routed := route_lent a r h k pool client small allocated
      rw [attempt_refused (h.lent pool r) k _ i badge l failure (h.hosts_located _ i badge hosts) place refused] at routed
      exact bounced_received k pool relay sound allocated routed
  | deferred client vacant l nowhere place running =>
      obtain ⟨k, pool, allocated⟩ := granted vacant
      have taken := l.job_taken (remain 0 l place manned) (.retry k r.serial) running
      have routed := route_lent a r h k pool client small allocated
      rw [attempt_unknown (h.lent pool r) k _ (h.nowhere_located _ nowhere)] at routed
      simp only [putOff, enqueue_here (h.lent pool r) 0 _ l _ place taken] at routed
      exact ⟨_, receive_routed a r h _ _ _ relay routed rfl,
        .deferred k pool l place (SlotPool.allocate_lends _ r.pool pool k sound allocated)⟩
  | stranded client vacant l nowhere place stopped =>
      obtain ⟨k, pool, allocated⟩ := granted vacant
      have refused : l.enqueue (.job (.retry k r.serial)) = .error .stopped := by simp only [RunLoop.enqueue, stopped, if_true]
      have routed := route_lent a r h k pool client small allocated
      rw [attempt_unknown (h.lent pool r) k _ (h.nowhere_located _ nowhere)] at routed
      simp only [putOff, enqueue_turned (h.lent pool r) 0 _ l _ place refused] at routed
      exact bounced_received k pool relay sound allocated routed

theorem routes_somewhere (listed : ∃ l, h.loops[0]? = some l) : ∃ routing, Routes a r h routing := by
  by_cases code : a.endpoint.code = 0xFFFF
  · exact ⟨_, .broadcast code⟩
  by_cases vacant : r.pool.HasVacant
  · rcases h.locate_hosts a.app with ⟨i, badge, -, hosts⟩ | ⟨-, nowhere⟩
    · obtain ⟨-, ⟨l, place, -⟩, -⟩ := id hosts
      cases stopped : l.stopped with
      | true => exact ⟨_, .crowded code vacant i badge l hosts place (.inl stopped)⟩
      | false =>
          rcases Nat.lt_or_ge l.events l.settings.eventCapacity with room | full
          · exact ⟨_, .delivered code vacant i badge l hosts place stopped room⟩
          · exact ⟨_, .crowded code vacant i badge l hosts place (.inr full)⟩
    · obtain ⟨l, place⟩ := listed
      cases stopped : l.stopped with
      | true => exact ⟨_, .stranded code vacant l nowhere place stopped⟩
      | false => exact ⟨_, .deferred code vacant l nowhere place stopped⟩
  · exact ⟨_, .exhausted code vacant⟩

end

end Hub

namespace Scene

theorem undergo_counts (c : Scene) (incidents : List Incident) (starts : c.Starts)
    (length : (c.undergo incidents).stack.hub.loops.length = c.stack.hub.loops.length) (i : Nat) (l : RunLoop)
    (place : (c.undergo incidents).stack.hub.loops[i]? = some l) : l.Counts := by
  intro attached
  have within : i < c.stack.hub.loops.length := by
    rw [← length]
    exact (List.getElem?_eq_some_iff.mp place).1
  obtain ⟨settings, sits⟩ := starts_seat i c _ starts (List.getElem?_eq_getElem within)
  obtain ⟨s, sits', held⟩ := undergo_capped incidents c _ settings sits ⟨rfl, rfl, Nat.zero_le _⟩
  have same : s.loop = l := Option.some.inj (sits'.shows.place.symm.trans place)
  subst same
  exact (held attached).queued

/-- Whatever a message from the host finds, there is one answer to it, and only the first loop that hosts its app is asked. -/
theorem arrival_exact (size : Nat) (c : Scene) (incidents : List Incident) (r : Relay) (a : Arrival) (opening : c.Opening size)
    (honest : ∀ x ∈ incidents, x.Honest) (relay : (c.undergo incidents).stack.hub.relay = some r)
    (remain : ∀ i l, (c.undergo incidents).stack.hub.loops[i]? = some l → i < (c.undergo incidents).stack.hub.registered →
      l.Remains)
    (small : a.payload.length ≤ Hub.largestArrival) :
    ∃ routing next,
      (∀ viaLink, (c.undergo incidents).stack.act (.deliver a viaLink) =
        (.routed (some routing), { (c.undergo incidents).stack with hub := next })) ∧
      (∀ other, Hub.Routes a r (c.undergo incidents).stack.hub other ↔ other = routing) ∧
      Hub.Received a r (c.undergo incidents).stack.hub routing next := by
  obtain ⟨manned, listed, -⟩ := opening_loops size c opening
  obtain ⟨registered, owners, -⟩ := undergo_keeps size c opening incidents honest
  have length : (c.undergo incidents).stack.hub.loops.length = c.stack.hub.loops.length := by
    simpa only [Hub.bearings, List.length_map] using owners
  have starts : c.Starts := ⟨opening.1.imp fun _ => And.right, opening.2⟩
  have counts := undergo_counts c incidents starts length
  have sound := undergo_pool size incidents c opening honest r relay
  have manned' : 0 < (c.undergo incidents).stack.hub.registered := Nat.lt_of_lt_of_eq manned registered.symm
  have answered : ∀ routing, Hub.Routes a r (c.undergo incidents).stack.hub routing → _ := fun routing routes =>
    Hub.routes_received routing relay sound small remain counts manned' routes
  have first : ∃ l, (c.undergo incidents).stack.hub.loops[0]? = some l :=
    ⟨_, List.getElem?_eq_getElem (by rw [length]; exact List.length_pos_iff.mpr listed)⟩
  obtain ⟨routing, routes⟩ := Hub.routes_somewhere (a := a) (r := r) first
  obtain ⟨next, received, left⟩ := answered routing routes
  refine ⟨routing, next, fun viaLink => ?_, fun other => ⟨fun routes' => ?_, fun same => ?_⟩, left⟩
  · simp only [Stack.act, received]
  · obtain ⟨_, received', _⟩ := answered other routes'
    cases received.symm.trans received'
    rfl
  · rw [same]
    exact routes

def besieged : List Incident :=
  [.act (.load 0 1 .none .plain), .take 0, .finish 0, .act (.post 0 ⟨7, 0, 1, .empty, none⟩)].map .move

def knock (app : AppId) : Arrival := ⟨app, 1, ⟨1⟩, [7]⟩

theorem besieged_arrivals :
    paired.Opening 4 ∧ (∀ x ∈ besieged, x.Honest) ∧
      ∃ r, (paired.undergo besieged).stack.hub.relay = some r ∧
        (∃ next, (∀ viaLink, (paired.undergo besieged).stack.act (.deliver (knock 1) viaLink) =
            (.routed (some (.rejected .unavailable)), { (paired.undergo besieged).stack with hub := next })) ∧
          Hub.Received (knock 1) r (paired.undergo besieged).stack.hub (.rejected .unavailable) next) ∧
        ∃ next, (∀ viaLink, (paired.undergo besieged).stack.act (.deliver (knock 2) viaLink) =
            (.routed (some .deferred), { (paired.undergo besieged).stack with hub := next })) ∧
          Hub.Received (knock 2) r (paired.undergo besieged).stack.hub .deferred next := by
  have opening : paired.Opening 4 :=
    ⟨⟨⟨{ outstanding := 4 }, some (.uplink { settings := {} }), some {}, [{ eventCapacity := 1 }, {}], 2⟩, rfl, rfl⟩, rfl⟩
  have honest : ∀ x ∈ besieged, x.Honest := by simp [besieged, Incident.Honest, Move.Honest, Action.Honest]
  have remain : ∀ i l, (paired.undergo besieged).stack.hub.loops[i]? = some l →
      i < (paired.undergo besieged).stack.hub.registered → l.Remains := by
    intro i l place _
    have attached : ∀ l ∈ (paired.undergo besieged).stack.hub.loops, l.attached = true := by decide
    exact .inl (attached l (List.mem_of_getElem? place))
  obtain ⟨routing, next, answer, -, left⟩ := arrival_exact 4 paired besieged _ (knock 1) opening honest rfl remain (by decide)
  obtain ⟨routing', next', answer', -, left'⟩ := arrival_exact 4 paired besieged _ (knock 2) opening honest rfl remain (by decide)
  have refused : routing = .rejected .unavailable := by
    have said := congrArg Prod.fst (answer false)
    cases said
    rfl
  have waits : routing' = .deferred := by
    have said := congrArg Prod.fst (answer' false)
    cases said
    rfl
  subst refused waits
  exact ⟨opening, honest, _, rfl, ⟨next, answer, left⟩, next', answer', left'⟩

end Scene

end HubRelay
