import HubRelay.Proofs.Loop.Closing

/-! The roster of a loop and its table of nanoapps: they hold the same nanoapps, each under an instance id of its
own, until the loop has spent its ids. -/

set_option autoImplicit false

namespace HubRelay

def Task.badge? : Task → Option Badge
  | .load badge _ => some badge
  | _ => none

def Epilogue.badge? : Epilogue → Option Badge
  | .install badge _ => some badge
  | _ => none

theorem RunLoop.placeApp_perm (a : Loaded) (apps : List Loaded) (fresh : ∀ b ∈ apps, b.badge.inst ≠ a.badge.inst) :
    (placeApp a apps).Perm (a :: apps) := by
  induction apps with
  | nil => exact .rfl
  | cons b rest ih =>
      have apart : (a.badge.inst == b.badge.inst) = false := beq_eq_false_iff_ne.mpr (fresh b List.mem_cons_self).symm
      simp only [placeApp, apart]
      split
      · exact .rfl
      · have later := ih fun b' member => fresh b' (List.mem_cons_of_mem b member)
        exact (later.cons b).trans (.swap a b rest)

namespace Seat

def residents (s : Seat) : List Badge := s.loop.apps.map (·.badge)

def coming (s : Seat) : Multiset Badge :=
  (s.loop.queue.toList.filterMap Task.badge? : List Badge) + s.hand.filterMap Epilogue.badge?

/-- The ids that the loop gave so far are those up to the next one, until they come round. -/
structure Numbered (s : Seat) : Prop where
  system : ∀ badge ∈ s.requested, badge.inst ≠ systemInstance
  bounded : s.requested.length ≤ instanceLimit → ∀ badge ∈ s.requested, badge.inst.toNat ≤ s.requested.length
  apart : s.requested.length ≤ instanceLimit → (s.requested.map (·.inst)).Nodup
  next : s.requested.length ≤ instanceLimit → s.loop.nextInst = UInt16.ofNat (s.requested.length + 1)

structure Registered (σ : Stage) (s : Seat) : Prop where
  known : s.coming + s.residents ≤ (s.requested : Multiset Badge)
  roster : σ ≠ .ending → s.loop.roster.Perm s.residents
  apart : (s.loop.roster.map (·.app)).Nodup
  entering : ∀ badge program, .install badge program ∈ s.hand → badge.app ∉ s.loop.roster.map (·.app)

theorem residents_setProgram (inst : InstanceId) (program : Program Action) (l : RunLoop) :
    (l.setProgram inst program).apps.map (·.badge) = l.apps.map (·.badge) := by
  simp only [RunLoop.setProgram, List.map_map]
  refine List.map_congr_left fun a _ => ?_
  simp only [Function.comp_apply]
  split <;> rfl

theorem numbered_request (s : Seat) (badge : Badge) (numbered : s.Numbered) (issued : badge.inst = s.loop.issue.1)
    (l : RunLoop) (log : Log) (next : l.nextInst = s.loop.issue.2.nextInst) :
    Numbered { s with loop := l, requested := badge :: s.requested, log := log } := by
  obtain ⟨system, bounded, apart, following⟩ := numbered
  have step := fun few : s.requested.length + 1 ≤ instanceLimit =>
    Traffic.issue_next badge s.loop.nextInst s.requested.length few issued (following (Nat.le_of_succ_le few))
  have lower : ∀ few : s.requested.length + 1 ≤ instanceLimit, ∀ b ∈ s.requested, b.inst.toNat ≤ s.requested.length :=
    fun few => bounded (Nat.le_of_succ_le few)
  constructor
  · intro b member
    rcases List.mem_cons.mp member with rfl | old
    · rw [issued, RunLoop.issue]
      cases zero : s.loop.nextInst == systemInstance with
      | true => simp [systemInstance]
      | false => simpa using zero
    · exact system b old
  · intro few b member
    rcases List.mem_cons.mp member with rfl | old
    · exact Nat.le_of_eq (step few).1
    · exact Nat.le_succ_of_le (lower few b old)
  · intro few
    refine List.nodup_cons.mpr ⟨fun member => ?_, apart (Nat.le_of_succ_le few)⟩
    obtain ⟨b, listed, equal⟩ := List.mem_map.mp member
    have low := lower few b listed
    rw [equal, (step few).1] at low
    exact Nat.not_succ_le_self _ low
  · intro few
    have after : s.loop.issue.2.nextInst = badge.inst + 1 := by rw [issued]; rfl
    exact next.trans (after.trans (step few).2)

theorem numbered_same (s s' : Seat) (numbered : s.Numbered) (requested : s'.requested = s.requested)
    (next : s'.loop.nextInst = s.loop.nextInst) : s'.Numbered := by
  obtain ⟨system, bounded, apart, following⟩ := numbered
  constructor <;> rw [requested]
  · exact system
  · exact bounded
  · exact apart
  · exact fun few => next.trans (following few)

theorem numbered_grow (s s' : Seat) (grow : s.Grow s') (numbered : s.Numbered) : s'.Numbered := by
  cases grow with
  | steer owner stopRequested => exact numbered_same s _ numbered rfl rfl
  | halt attached => exact numbered_same s _ numbered rfl rfl
  | accept t l plain taken =>
      rw [RunLoop.enqueue_cases t s.loop l taken]
      exact numbered_same s _ numbered rfl rfl
  | request badge issued => exact numbered_request s badge numbered issued _ _ rfl
  | load badge program l issued taken =>
      exact numbered_request s badge numbered issued l _ (by rw [RunLoop.enqueue_cases _ _ l taken])

theorem numbered_turn (σ σ' : Stage) (s s' : Seat) (turn : Turn σ σ' s s') (numbered : s.Numbered) : s'.Numbered := by
  cases turn <;> exact numbered_same s _ numbered rfl rfl

theorem waiting_pop (t : Task) (queue rest : List Task) (waits : queue = t :: rest) :
    ((queue.filterMap Task.badge? : List Badge) : Multiset Badge) = t.badge?.toList + ↑(rest.filterMap Task.badge?) := by
  subst waits
  cases badge : t.badge? with
  | none => simp [badge]
  | some b => simp [badge]

theorem registered_begin (σ σ' : Stage) (t : Task) (queue : Fifo Task) (rest : Epilogue) (s s' : Seat)
    (registered : s.Registered σ) (steady : σ ≠ .ending) (waits : s.loop.queue.toList = t :: queue.toList)
    (queue' : s'.loop.queue = queue) (hand : s'.hand = rest ::ₘ s.hand) (requested : s'.requested = s.requested)
    (residents : s'.residents = s.residents) (roster : s'.loop.roster = s.loop.roster)
    (same : rest.badge? = none ∨ rest.badge? = t.badge?)
    (fresh : ∀ badge program, rest = .install badge program → badge.app ∉ s.loop.roster.map (·.app)) :
    s'.Registered σ' := by
  have fewer : s'.coming ≤ s.coming := by
    rw [coming, coming, queue', hand, filterMap_held, waiting_pop t _ _ waits, add_left_comm, add_assoc]
    refine add_le_add_left (α := Multiset Badge) ?_ _
    rcases same with none | same
    · rw [none]
      exact Multiset.zero_le _
    · rw [same]
  refine ⟨?_, fun _ => ?_, ?_, fun badge program held => ?_⟩
  · rw [requested, residents]
    exact (add_le_add_left fewer _).trans registered.known
  · rw [roster, residents]
    exact registered.roster steady
  · rw [roster]
    exact registered.apart
  · rw [roster]
    rw [hand] at held
    rcases Multiset.mem_cons.mp held with here | there
    · exact fresh badge program here.symm
    · exact registered.entering badge program there

theorem registered_conclude (σ σ' : Stage) (rest : Epilogue) (hand : Multiset Epilogue) (s s' : Seat)
    (registered : s.Registered σ) (steady : σ' ≠ .ending → σ ≠ .ending) (held : s.hand = rest ::ₘ hand) (hand' : s'.hand = hand)
    (queue : s'.loop.queue = s.loop.queue) (requested : s'.requested = s.requested) (residents : s'.residents = s.residents)
    (roster : s'.loop.roster = s.loop.roster) : s'.Registered σ' := by
  have fewer : s'.coming ≤ s.coming := by
    rw [coming, coming, queue, hand', held, filterMap_held]
    exact add_le_add_right (Multiset.le_add_left _ _) _
  refine ⟨?_, fun outside => ?_, ?_, fun badge program member => ?_⟩
  · rw [requested, residents]
    exact (add_le_add_left fewer _).trans registered.known
  · rw [roster, residents]
    exact registered.roster (steady outside)
  · rw [roster]
    exact registered.apart
  · rw [roster]
    rw [hand'] at member
    exact registered.entering badge program (held ▸ Multiset.mem_cons_of_mem member)

theorem ids_apart (σ : Stage) (s : Seat) (numbered : s.Numbered) (few : s.requested.length ≤ instanceLimit)
    (registered : s.Registered σ) : ((s.coming + s.residents).map (·.inst)).Nodup :=
  Multiset.nodup_of_le (Multiset.map_le_map registered.known) (Multiset.coe_nodup.mpr (numbered.apart few))

theorem residents_apart (σ : Stage) (s : Seat) (numbered : s.Numbered) (few : s.requested.length ≤ instanceLimit)
    (registered : s.Registered σ) : (s.residents.map (·.inst)).Nodup := by
  have apart := ids_apart σ s numbered few registered
  rw [Multiset.map_add] at apart
  exact Multiset.coe_nodup.mp (Multiset.nodup_of_le (Multiset.le_add_left _ _) apart)

theorem entering_apart (σ : Stage) (s : Seat) (badge : Badge) (program : Program Action) (numbered : s.Numbered)
    (few : s.requested.length ≤ instanceLimit) (registered : s.Registered σ) (held : .install badge program ∈ s.hand) :
    ∀ b ∈ s.loop.apps, b.badge.inst ≠ badge.inst := by
  intro b listed same
  have apart := ids_apart σ s numbered few registered
  rw [Multiset.map_add, Multiset.nodup_add] at apart
  obtain ⟨-, -, apart⟩ := apart
  have coming : badge ∈ s.coming :=
    Multiset.mem_add.mpr (.inr (Multiset.mem_filterMap _ _ |>.mpr ⟨_, held, rfl⟩))
  exact Multiset.disjoint_left.mp apart (Multiset.mem_map_of_mem _ coming)
    (List.mem_map.mpr ⟨b.badge, List.mem_map_of_mem listed, same⟩)

theorem badge_some (app : AppId) (badge : Badge) (l : RunLoop) (known : l.badge? app = some badge) :
    badge ∈ l.roster ∧ badge.app = app :=
  ⟨List.mem_of_find?_eq_some known, by simpa using List.find?_some known⟩

theorem registered_loaded (σ : Stage) (s : Seat) (badge : Badge) (numbered : s.Numbered)
    (few : s.requested.length ≤ instanceLimit) (registered : s.Registered σ) (steady : σ ≠ .ending)
    (named : badge ∈ s.loop.roster) : ∃ a, s.loop.loaded? badge.inst = some a ∧ a.badge = badge := by
  obtain ⟨a, listed, same⟩ := List.mem_map.mp ((registered.roster steady).mem_iff.mp named)
  cases found : s.loop.loaded? badge.inst with
  | none => exact absurd (List.find?_eq_none.mp found a listed) (by simp [same])
  | some b =>
      have inst : b.badge.inst = badge.inst := by simpa using List.find?_some found
      refine ⟨b, rfl, ?_⟩
      exact List.inj_on_of_nodup_map (residents_apart σ s numbered few registered)
        (List.mem_map_of_mem (List.mem_of_find?_eq_some found)) ((registered.roster steady).mem_iff.mp named) inst

theorem registered_unload (s s' : Seat) (app : AppId) (badge : Badge) (queue : Fifo Task) (numbered : s.Numbered)
    (few : s.requested.length ≤ instanceLimit) (registered : s.Registered .ready) (fits : s.Fits .ready)
    (waits : s.loop.queue.toList = .unload app :: queue.toList) (known : s.loop.badge? app = some badge)
    (loop : s'.loop = ({ s.loop with queue := queue }.strike app).evict badge.inst) (hand : s'.hand = .nothing ::ₘ s.hand)
    (requested : s'.requested = s.requested) : s'.Registered .busy := by
  have apart := residents_apart _ s numbered few registered
  obtain ⟨named, same⟩ := badge_some app badge s.loop known
  have perm := registered.roster (σ := .ready) nofun
  have there := perm.mem_iff.mp named
  have apps : s'.loop.apps = s.loop.apps.filter fun a => a.badge.inst != badge.inst := by rw [loop]; rfl
  have roster : s'.loop.roster = s.loop.roster.filter fun b => b.app != app := by rw [loop]; rfl
  -- The app and the id name the same nanoapp.
  have either : s'.residents = s.residents.filter fun b => b.app != app := by
    rw [residents, residents, apps, List.filter_map]
    refine congrArg _ (List.filter_congr fun a listed => ?_)
    have resident : a.badge ∈ s.residents := List.mem_map_of_mem listed
    have one : a.badge.inst = badge.inst ↔ a.badge.app = app := by
      constructor
      · intro inst
        rw [List.inj_on_of_nodup_map apart resident there inst]
        exact same
      · intro equal
        have both : a.badge = badge :=
          List.inj_on_of_nodup_map registered.apart (perm.mem_iff.mpr resident) named (equal.trans same.symm)
        rw [both]
    simp only [Function.comp_apply, bne, Bool.not_eq_eq_eq_not, Bool.not_not]
    exact Bool.eq_iff_iff.mpr (by simpa using one)
  have empty := fits_idle .ready s fits rfl
  have fewer : s'.coming ≤ s.coming := by
    rw [coming, coming, hand, filterMap_held, waiting_pop _ _ _ waits, loop]
    exact le_of_eq (by simp [Task.badge?, Epilogue.badge?, RunLoop.evict, RunLoop.strike])
  have shrunk : (s'.residents : Multiset Badge) ≤ s.residents := by
    rw [either]
    exact Multiset.coe_le.mpr List.filter_sublist.subperm
  refine ⟨?_, fun _ => ?_, ?_, ?_⟩
  · rw [requested]
    exact (add_le_add fewer shrunk).trans registered.known
  · rw [roster, either]
    exact perm.filter _
  · rw [roster]
    exact registered.apart.sublist (List.filter_sublist.map _)
  · rw [hand, empty]
    intro b program held
    cases Multiset.mem_singleton.mp held

theorem registered_install (s s' : Seat) (σ' : Stage) (badge : Badge) (program : Program Action) (hand : Multiset Epilogue)
    (numbered : s.Numbered) (few : s.requested.length ≤ instanceLimit) (registered : s.Registered .busy) (fits : s.Fits .busy)
    (held : s.hand = .install badge program ::ₘ hand) (loop : s'.loop = s.loop.install ⟨badge, program.afterStart⟩)
    (hand' : s'.hand = hand) (requested : s'.requested = s.requested) : s'.Registered σ' := by
  have entering : .install badge program ∈ s.hand := held ▸ Multiset.mem_cons_self _ _
  have placed := RunLoop.placeApp_perm ⟨badge, program.afterStart⟩ s.loop.apps
    (entering_apart _ s badge program numbered few registered entering)
  have residents : s'.residents.Perm (badge :: s.residents) := by
    rw [Seat.residents, loop]
    exact placed.map _
  have roster : s'.loop.roster = badge :: s.loop.roster := by rw [loop]; rfl
  have empty := fits_alone .busy .ready s _ hand fits rfl held
  refine ⟨?_, fun _ => ?_, ?_, ?_⟩
  · have total : s'.coming + s'.residents = s.coming + s.residents := by
      rw [Multiset.coe_eq_coe.mpr residents, coming, coming, loop, hand', held, filterMap_held, ← Multiset.cons_coe,
        ← Multiset.singleton_add, add_left_comm _ _ (hand.filterMap _), add_assoc, add_assoc, add_assoc]
      exact add_left_comm _ _ _ |>.trans (by simp [RunLoop.install, Epilogue.badge?, add_left_comm])
    rw [requested, total]
    exact registered.known
  · rw [roster]
    exact ((registered.roster (σ := .busy) nofun).cons badge).trans residents.symm
  · rw [roster]
    exact List.nodup_cons.mpr ⟨registered.entering badge program entering, registered.apart⟩
  · rw [hand', empty]
    intro b p member
    exact absurd member (Multiset.notMem_zero _)

theorem registered_same (σ σ' : Stage) (s s' : Seat) (registered : s.Registered σ) (steady : σ' ≠ .ending → σ ≠ .ending)
    (coming : s'.coming ≤ s.coming) (hand : s'.hand = s.hand) (requested : s'.requested = s.requested)
    (residents : s'.residents = s.residents) (roster : s'.loop.roster = s.loop.roster) : s'.Registered σ' := by
  refine ⟨?_, fun outside => ?_, ?_, ?_⟩
  · rw [requested, residents]
    exact (add_le_add_left coming _).trans registered.known
  · rw [roster, residents]
    exact registered.roster (steady outside)
  · rw [roster]
    exact registered.apart
  · rw [roster, hand]
    exact registered.entering

theorem coming_pop (t : Task) (queue : Fifo Task) (s s' : Seat) (waits : s.loop.queue.toList = t :: queue.toList)
    (queue' : s'.loop.queue = queue) (hand : s'.hand = s.hand) : s'.coming ≤ s.coming := by
  rw [coming, coming, queue', hand, waiting_pop t _ _ waits]
  exact add_le_add_left (Multiset.le_add_left _ _) _

theorem registered_turn (σ σ' : Stage) (s s' : Seat) (turn : Turn σ σ' s s') (fits : s.Fits σ) (numbered : s.Numbered)
    (few : s.requested.length ≤ instanceLimit) (registered : s.Registered σ) : s'.Registered σ' := by
  have begun : ∀ t, σ.begin (some t) = some σ' → σ ≠ .ending := by
    rintro t begins rfl
    cases begins
  have steady : σ.conclude = some σ' → σ' ≠ .ending → σ ≠ .ending := by
    rintro concludes - rfl
    cases concludes
  have aside : ∀ rest : Epilogue, rest.badge? = none → ∀ badge program, rest = .install badge program →
      badge.app ∉ s.loop.roster.map (·.app) := by
    rintro rest silent badge program rfl
    cases silent
  cases turn with
  | rest => exact registered
  | pass e badge program queue waits loaded =>
      have same := residents_setProgram badge.inst program.nextScript.2 ({ s.loop with queue := queue } : RunLoop).freeEvent
      exact registered_begin _ _ (.event e) queue _ s _ registered (by decide) waits rfl rfl rfl same rfl (.inl rfl) (aside _ rfl)
  | miss e queue waits absent =>
      exact registered_begin _ _ (.event e) queue _ s _ registered (by decide) waits rfl rfl rfl rfl rfl (.inl rfl) (aside _ rfl)
  | job j queue waits begins =>
      have silent : j.epilogue.badge? = none := by cases j <;> rfl
      exact registered_begin _ _ (.job j) queue _ s _ registered (begun _ begins) waits rfl rfl rfl rfl rfl (.inl silent)
        (aside _ silent)
  | load badge program queue waits fresh =>
      refine registered_begin _ _ (.load badge program) queue _ s _ registered (by decide) waits rfl rfl rfl rfl rfl (.inr rfl) ?_
      intro b p same member
      cases same
      obtain ⟨other, listed, app⟩ := List.mem_map.mp member
      exact absurd (List.find?_eq_none.mp fresh other listed) (by simp [app])
  | unload app badge a queue waits known loaded =>
      exact registered_unload s _ app badge queue numbered few registered fits waits known rfl rfl rfl
  | strike app badge queue waits known absent =>
      obtain ⟨a, loaded, -⟩ := registered_loaded _ s badge numbered few registered (by decide) (badge_some app badge s.loop known).1
      rw [absent] at loaded
      cases loaded
  | skip t queue waits idle =>
      exact registered_begin _ _ t queue .nothing s _ registered (by decide) waits rfl rfl rfl rfl rfl (.inl rfl) (aside _ rfl)
  | install badge program hand held starts concludes =>
      have busy : σ = .busy := by
        have member : .install badge program ∈ s.hand := held ▸ Multiset.mem_cons_self _ _
        cases σ with
        | busy => rfl
        | sweeping => exact absurd (fits.sweeping rfl _ member) (by simp [Epilogue.isJob])
        | ready | ending | draining | gone => cases concludes
      subst busy
      exact registered_install s _ σ' badge program hand numbered few registered fits held rfl rfl rfl
  | decline badge program hand held refuses concludes =>
      exact registered_conclude _ _ _ hand s _ registered (steady concludes) held rfl rfl rfl rfl rfl
  | quit hand held concludes =>
      exact registered_conclude _ _ _ hand s _ registered (steady concludes) held rfl rfl rfl rfl rfl
  | consume e hand held concludes =>
      exact registered_conclude _ _ _ hand s _ registered (steady concludes) held rfl rfl rfl rfl rfl
  | count rest hand held job concludes =>
      exact registered_conclude _ _ rest hand s _ registered (steady concludes) held rfl rfl rfl rfl rfl
  | shut =>
      refine ⟨?_, fun outside => absurd rfl outside, registered.apart, registered.entering⟩
      exact (add_le_add_right (Multiset.zero_le _) s.coming).trans registered.known
  | dismiss => exact registered_same _ _ s _ registered id le_rfl rfl rfl rfl rfl
  | clear =>
      have none : s.residents = [] := by rw [residents, fits.apps rfl]; rfl
      refine ⟨registered.known, fun _ => ?_, List.nodup_nil, fun _ _ _ => List.not_mem_nil⟩
      exact List.Perm.of_eq none.symm
  | drain e queue waits =>
      exact registered_same _ _ s _ registered (fun _ => by decide) (coming_pop _ queue s _ waits rfl rfl) rfl rfl rfl rfl
  | drop t queue waits job event =>
      exact registered_same _ _ s _ registered (fun _ => by decide) (coming_pop t queue s _ waits rfl rfl) rfl rfl rfl rfl
  | leave done => exact registered_same _ _ s _ registered (fun _ => by decide) le_rfl rfl rfl rfl rfl

theorem known_grow (s s' : Seat) (kept : Multiset Badge) (grow : s.Grow s') (known : s.coming + kept ≤ s.requested) :
    s'.coming + kept ≤ s'.requested := by
  have push : ∀ (t : Task) (queue : Fifo Task), (((queue.push t).toList.filterMap Task.badge? : List Badge) : Multiset Badge) =
      t.badge?.toList + ↑(queue.toList.filterMap Task.badge?) := by
    intro t queue
    rw [Fifo.toList_push, List.filterMap_append, ← Multiset.coe_add, add_comm]
    cases t <;> rfl
  have silent : ∀ (t : Task) (loop : RunLoop) (log : Log), t.badge? = none → loop.queue = s.loop.queue.push t →
      coming { s with loop := loop, log := log } + kept ≤ s.requested := by
    intro t loop log none queue
    refine (le_of_eq ?_).trans known
    simp only [coming, queue, push, none]
    exact congrArg (· + _ + _) (zero_add _)
  cases grow with
  | steer owner stopRequested => exact known
  | halt attached => exact silent .stop { s.loop with queue := s.loop.queue.push .stop } _ rfl rfl
  | accept t l plain taken =>
      have none : t.badge? = none := by cases t <;> first | rfl | exact absurd trivial plain
      have queue : l.queue = s.loop.queue.push t := by rw [RunLoop.enqueue_cases t s.loop l taken]
      exact silent t l _ none queue
  | request badge issued => exact known.trans (Multiset.le_cons_self _ badge)
  | load badge program l issued taken =>
      rw [RunLoop.enqueue_cases _ _ l taken]
      refine (le_of_eq ?_).trans (Multiset.cons_le_cons badge known)
      simp only [coming, push, RunLoop.issue]
      rw [← Multiset.singleton_add, add_assoc, add_assoc, add_assoc]
      rfl

theorem registered_grow (σ : Stage) (s s' : Seat) (grow : s.Grow s') (registered : s.Registered σ) : s'.Registered σ := by
  have known := known_grow s s' s.residents grow registered.known
  cases grow with
  | steer | halt | request => exact ⟨known, registered.roster, registered.apart, registered.entering⟩
  | accept t l plain taken =>
      rw [RunLoop.enqueue_cases t s.loop l taken] at known ⊢
      exact ⟨known, registered.roster, registered.apart, registered.entering⟩
  | load badge program l issued taken =>
      rw [RunLoop.enqueue_cases _ _ l taken] at known ⊢
      exact ⟨known, registered.roster, registered.apart, registered.entering⟩

theorem turn_requested (σ σ' : Stage) (s s' : Seat) (turn : Turn σ σ' s s') : s'.requested = s.requested := by
  cases turn <;> rfl

theorem grow_requested (s s' : Seat) (grow : s.Grow s') : s.requested.length ≤ s'.requested.length := by
  cases grow with
  | request badge issued => exact Nat.le_succ _
  | load badge program l issued taken => exact Nat.le_succ _
  | steer | halt | accept => exact le_rfl

theorem grows_nanoapps (s s' : Seat) (grows : s.Grows s') :
    s'.loop.apps = s.loop.apps ∧ s'.loop.leaving = s.loop.leaving := by
  induction grows with
  | refl => exact ⟨rfl, rfl⟩
  | tail _ step ih =>
      cases step with
      | steer | halt | request => exact ih
      | accept t l plain taken =>
          rw [RunLoop.enqueue_cases t _ l taken]
          exact ih
      | load badge program l issued taken =>
          rw [RunLoop.enqueue_cases _ _ l taken]
          exact ih

theorem registered_agree (σ : Stage) (s : Seat) (numbered : s.Numbered) (few : s.requested.length ≤ instanceLimit)
    (registered : s.Registered σ) (steady : σ ≠ .ending) :
    (∀ app inst, s.loop.find? app = some inst → inst ≠ systemInstance ∧
        ∃ a, s.loop.loaded? inst = some a ∧ a.badge.app = app ∧ a.badge.inst = inst) ∧
      (∀ app app' inst, s.loop.find? app = some inst → s.loop.find? app' = some inst → app = app') ∧
      ∀ a ∈ s.loop.apps, s.loop.find? a.badge.app = some a.badge.inst := by
  have found : ∀ app inst, s.loop.find? app = some inst →
      ∃ badge, badge ∈ s.loop.roster ∧ badge.app = app ∧ badge.inst = inst := by
    intro app inst listed
    obtain ⟨badge, known, same⟩ := Option.map_eq_some_iff.mp listed
    obtain ⟨named, app⟩ := badge_some app badge s.loop known
    exact ⟨badge, named, app, same⟩
  have perm := registered.roster steady
  refine ⟨fun app inst listed => ?_, fun app app' inst listed listed' => ?_, fun a there => ?_⟩
  · obtain ⟨badge, named, rfl, rfl⟩ := found app inst listed
    have requested : badge ∈ s.requested :=
      Multiset.mem_coe.mp (Multiset.mem_of_le registered.known (Multiset.mem_add.mpr (.inr (perm.mem_iff.mp named))))
    obtain ⟨a, loaded, same⟩ := registered_loaded σ s badge numbered few registered steady named
    exact ⟨numbered.system badge requested, a, loaded, congrArg Badge.app same, congrArg Badge.inst same⟩
  · obtain ⟨badge, named, rfl, inst⟩ := found app inst listed
    obtain ⟨badge', named', rfl, inst'⟩ := found app' _ listed'
    exact congrArg Badge.app (List.inj_on_of_nodup_map (residents_apart σ s numbered few registered)
      (perm.mem_iff.mp named) (perm.mem_iff.mp named') (inst.trans inst'.symm))
  · have named : a.badge ∈ s.loop.roster := perm.mem_iff.mpr (List.mem_map_of_mem there)
    cases known : s.loop.badge? a.badge.app with
    | none => exact absurd (List.find?_eq_none.mp known a.badge named) (by simp)
    | some badge =>
        obtain ⟨named', app⟩ := badge_some _ badge s.loop known
        rw [RunLoop.find?, known, List.inj_on_of_nodup_map registered.apart named' named app]
        rfl

theorem registered_keeps (σ σ' : Stage) (s s' : Seat) (turn : Turn σ σ' s s') (numbered : s.Numbered)
    (few : s.requested.length ≤ instanceLimit) (registered : s.Registered σ) (badge : Badge) (resident : badge ∈ s.residents) :
    badge ∈ s'.residents ∨ (σ = .ready ∧ σ' = .ending) ∨ s'.log.processed = s.log.processed ++ [.unload badge.app] := by
  cases turn with
  | pass e other program queue waits loaded =>
      refine .inl ?_
      rw [residents, residents_setProgram]
      exact resident
  | unload app other a queue waits known loaded =>
      by_cases same : badge.inst = other.inst
      · obtain ⟨named, rfl⟩ := badge_some app other s.loop known
        have both := List.inj_on_of_nodup_map (residents_apart _ s numbered few registered) resident
          ((registered.roster nofun).mem_iff.mp named) same
        exact .inr (.inr (both ▸ rfl))
      · obtain ⟨b, listed, rfl⟩ := List.mem_map.mp resident
        exact .inl (List.mem_map_of_mem (List.mem_filter.mpr ⟨listed, by simpa using same⟩))
  | install other program hand held starts concludes =>
      have placed := RunLoop.placeApp_perm ⟨other, program.afterStart⟩ s.loop.apps
        (entering_apart _ s other program numbered few registered (held ▸ Multiset.mem_cons_self _ _))
      exact .inl ((placed.map _).mem_iff.mpr (List.mem_cons_of_mem other resident))
  | shut => exact .inr (.inl ⟨rfl, rfl⟩)
  | rest | miss | job | load | strike | skip | decline | quit | consume | count | dismiss | clear | drain | drop | leave =>
      exact .inl resident

theorem fresh_numbered (settings : LoopSettings) : (fresh settings).Numbered :=
  ⟨nofun, fun _ => nofun, fun _ => List.nodup_nil, fun _ => rfl⟩

theorem fresh_registered (settings : LoopSettings) : (fresh settings).Registered .ready :=
  ⟨le_rfl, fun _ => .refl _, List.nodup_nil, nofun⟩

end Seat

namespace Scene

variable (i : Nat)

theorem run_registered (c : Scene) (moves : List Move) (σ : Stage) (l : RunLoop) (starts : c.Starts)
    (place : c.stack.loop? i = some l) (after : Stage.ready.after i moves c = some σ) :
    ∃ s : Seat, s.Sits i (c.run moves) ∧ s.Fits σ ∧ s.Numbered ∧
      (s.requested.length ≤ instanceLimit → s.Registered σ) := by
  obtain ⟨settings, sits⟩ := starts_seat i c l starts place
  obtain ⟨s, sits', -, books⟩ :=
    run_seat i (fun σ s => s.Fits σ ∧ s.Numbered ∧ (s.requested.length ≤ instanceLimit → s.Registered σ))
      (fun s books => books.1.stopped rfl)
      (fun σ σ' s s' turn ⟨fits, numbered, registered⟩ => by
        refine ⟨Seat.fits_turn σ σ' s s' turn fits, Seat.numbered_turn σ σ' s s' turn numbered, fun few => ?_⟩
        rw [Seat.turn_requested σ σ' s s' turn] at few
        exact Seat.registered_turn σ σ' s s' turn fits numbered few (registered few))
      (fun σ s s' grow ⟨fits, numbered, registered⟩ => by
        refine ⟨Seat.fits_grow σ s s' grow fits, Seat.numbered_grow s s' grow numbered, fun few => ?_⟩
        exact Seat.registered_grow σ s s' grow (registered ((Seat.grow_requested s s' grow).trans few)))
      moves c .ready σ _ sits
      ⟨Seat.fresh_fits settings, Seat.fresh_numbered settings, fun _ => Seat.fresh_registered settings⟩ after
  exact ⟨s, sits', books⟩

theorem processes_take (m : Move) (c : Scene) (t : Task) (taken : c.processes i m = [t]) :
    m = .take i ∧ (c.queued i).head? = some t := by
  cases m with
  | take j =>
      by_cases here : j = i
      · subst here
        refine ⟨rfl, ?_⟩
        cases waits : c.queued j with
        | nil => simp [processes, pops, waits] at taken
        | cons first rest => simpa [processes, pops, waits] using taken
      · simp [processes, pops, here] at taken
  | act | haul | turn | note | tell | occupy | finish | shut | quit | clearRoster | drop | detach | dropRelay => cases taken

/-- Between two moves, until a loop has given out every instance id once: the roster and the table hold the same
nanoapps, each under an id of its own, and a nanoapp stays where it is until an unload of its app is taken up or
the loop stops. -/
theorem loaded_agree (c : Scene) (moves : List Move) (σ : Stage) (starts : c.Starts) (here : (c.stack.loop? i).isSome)
    (after : Stage.ready.after i moves c = some σ) (steady : σ ≠ .ending)
    (few : (requests i (c.run moves).stack.hub.history).length ≤ instanceLimit) :
    ∃ l, (c.run moves).stack.loop? i = some l ∧
      (∀ app inst, l.find? app = some inst → inst ≠ systemInstance ∧
        ∃ a, l.loaded? inst = some a ∧ a.badge.app = app ∧ a.badge.inst = inst) ∧
      (∀ app app' inst, l.find? app = some inst → l.find? app' = some inst → app = app') ∧
      (∀ a ∈ l.apps, l.find? a.badge.app = some a.badge.inst) ∧
      ∀ m σ', σ.step i m (c.run moves) = some σ' → ∃ l', ((c.run moves).move m).stack.loop? i = some l' ∧
        ∀ a ∈ l.apps, (∃ a' ∈ l'.apps, a'.badge = a.badge) ∨ m = .shut i ∨
          (m = .take i ∧ ((c.run moves).queued i).head? = some (.unload a.badge.app)) := by
  obtain ⟨l, place⟩ := Option.isSome_iff_exists.mp here
  obtain ⟨s, sits, fits, numbered, registers⟩ := run_registered i c moves σ l starts place after
  rw [sits.shows.requested] at few
  have registered := registers few
  obtain ⟨listed, apart, known⟩ := s.registered_agree σ numbered few registered steady
  refine ⟨s.loop, sits.shows.place, listed, apart, known, fun m σ' step => ?_⟩
  have shut : σ = .draining → s.loop.stopped = true := by
    rintro rfl
    exact fits.stopped rfl
  obtain ⟨mid, next, turn, grows, sits', log⟩ := move_turn i (c.run moves) s m σ σ' sits shut step
  refine ⟨next.loop, sits'.shows.place, fun a loaded => ?_⟩
  rcases Seat.registered_keeps σ σ' s mid turn numbered few registered a.badge (List.mem_map_of_mem loaded) with
    stays | ⟨rfl, rfl⟩ | unloaded
  · obtain ⟨a', there, same⟩ := List.mem_map.mp stays
    exact .inl ⟨a', (Seat.grows_nanoapps mid next grows).1 ▸ there, same⟩
  · exact .inr (.inl (Stage.step_closes i m (c.run moves) .ready .ending rfl step rfl).1)
  · obtain ⟨-, more, -, kept⟩ := Seat.grows_queue mid next grows
    have processed : next.log.processed = s.log.processed ++ [.unload a.badge.app] := by rw [kept, unloaded]
    rw [log, observe] at processed
    exact .inr (.inr (processes_take i m (c.run moves) _ (List.append_cancel_left processed)))

def loading : List Move :=
  [.act (.load 0 1 .none .plain), .take 0, .finish 0, .act (.load 0 1 .none .plain), .take 0, .finish 0,
    .act (.load 0 2 .none .inert), .take 0, .finish 0, .act (.load 0 3 .none .plain), .take 0, .finish 0,
    .act (.unload 0 1), .take 0, .finish 0, .act (.load 0 1 .none .plain), .take 0, .finish 0]

theorem loading_agrees :
    Stage.ready.after 0 loading small = some .ready ∧
      (requests 0 (small.run loading).stack.hub.history).length ≤ instanceLimit ∧
      ∃ l, (small.run loading).stack.loop? 0 = some l ∧ l.find? 1 = some 5 ∧ l.find? 3 = some 4 ∧
        (∃ a, l.loaded? 5 = some a ∧ a.badge.app = 1) ∧ ∃ a, l.loaded? 4 = some a ∧ a.badge.app = 3 := by
  have ready : Stage.ready.after 0 loading small = some .ready := by decide
  have few : (requests 0 (small.run loading).stack.hub.history).length ≤ instanceLimit := by decide
  obtain ⟨l, place, listed, -⟩ := loaded_agree 0 small loading .ready small_starts rfl ready nofun few
  have names : ((small.run loading).stack.loop? 0).map (fun l => (l.find? 1, l.find? 3)) = some (some 5, some 4) := by decide
  rw [place] at names
  obtain ⟨one, three⟩ := Prod.mk.inj (Option.some.inj names)
  obtain ⟨-, a, loaded, app, -⟩ := listed 1 5 one
  obtain ⟨-, b, loaded', app', -⟩ := listed 3 4 three
  exact ⟨ready, few, l, place, one, three, ⟨a, loaded, app⟩, b, loaded', app'⟩

end Scene

end HubRelay
