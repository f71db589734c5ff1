import HubRelay.Proofs.Loop.Upcalls

/-! The life of a nanoapp: it is started once, gets events from then on until it is ended, and is ended once. What a
loop calls follows that life for each nanoapp that was ever asked for. -/

set_option autoImplicit false

namespace HubRelay

inductive Phase where
  | unstarted
  | starting (program : Program Action)
  | refused
  | serving (program : Program Action)
  | ended

namespace Phase

def isIdle : Phase → Bool
  | .unstarted | .refused | .ended => true
  | .starting _ | .serving _ => false

inductive Step (badge : Badge) : Phase → Upcall → Phase → Prop
  | start (program : Program Action) : Step badge .unstarted (.start badge program) (.starting program)
  | refuse (program : Program Action) (refuses : program.starts = false) :
      Step badge (.starting program) (.answer badge false) .refused
  | serve (program : Program Action) (starts : program.starts = true) :
      Step badge (.starting program) (.answer badge true) (.serving program.afterStart)
  | handle (program : Program Action) (e : Event) (meant : e.target = badge.inst) :
      Step badge (.serving program) (.handle badge program e) (.serving program.nextScript.2)
  | close (program : Program Action) : Step badge (.serving program) (.close badge program) .ended
  | drop (phase : Phase) (e : Event) (meant : e.target = badge.inst) (idle : phase.isIdle = true) :
      Step badge phase (.drop e) phase

-- How many starts there were, how many came out well, and how many ends.
def tally : Phase → Nat × Nat × Nat
  | .unstarted => (0, 0, 0)
  | .starting _ | .refused => (1, 0, 0)
  | .serving _ => (1, 1, 0)
  | .ended => (1, 1, 1)

end Phase

inductive Lifecycle (badge : Badge) : Phase → List Upcall → Prop
  | nil : Lifecycle badge .unstarted []
  | snoc {phase phase' : Phase} {calls : List Upcall} {call : Upcall} (before : Lifecycle badge phase calls)
      (step : Phase.Step badge phase call phase') : Lifecycle badge phase' (calls ++ [call])

namespace Lifecycle

variable {badge : Badge} {phase : Phase} {calls : List Upcall}

theorem tally (life : Lifecycle badge phase calls) :
    (calls.countP Upcall.isStart, calls.countP Upcall.isStarted, calls.countP Upcall.isClose) = phase.tally := by
  induction life with
  | nil => rfl
  | snoc before step ih =>
      obtain ⟨starts, ih⟩ := Prod.mk.inj ih
      obtain ⟨started, closes⟩ := Prod.mk.inj ih
      simp only [List.countP_append, starts, started, closes]
      cases step with
      | drop phase e meant idle => cases phase <;> rfl
      | start | refuse | serve | handle | close => rfl

theorem last (call : Upcall) (life : Lifecycle badge phase (calls ++ [call])) :
    ∃ before, Lifecycle badge before calls ∧ Phase.Step badge before call phase := by
  generalize whole : calls ++ [call] = all at life
  cases life with
  | nil => simp at whole
  | snoc before step =>
      obtain ⟨rfl, single⟩ := List.append_inj' whole rfl
      cases single
      exact ⟨_, before, step⟩

theorem early (before : List Upcall) (life : Lifecycle badge phase calls) (within : before <+: calls) :
    ∃ reached, Lifecycle badge reached before := by
  induction life with
  | nil =>
      rw [List.prefix_nil.mp within]
      exact ⟨_, .nil⟩
  | snoc life step ih =>
      rcases List.prefix_concat_iff.mp within with rfl | within
      · exact ⟨_, .snoc life step⟩
      · exact ih within

theorem split (call : Upcall) (before after : List Upcall) (life : Lifecycle badge phase (before ++ call :: after)) :
    ∃ here next, Lifecycle badge here before ∧ Phase.Step badge here call next := by
  obtain ⟨next, life⟩ := life.early (before ++ [call]) ⟨after, by simp⟩
  obtain ⟨here, life, step⟩ := life.last call
  exact ⟨here, next, life, step⟩

theorem started (life : Lifecycle badge phase calls) (begun : phase ≠ .unstarted) :
    ∃ program, .start badge program ∈ calls := by
  induction life with
  | nil => exact absurd rfl begun
  | snoc before step ih =>
      have further : ∀ {past : List Upcall} {call : Upcall}, (∃ program, .start badge program ∈ past) →
          ∃ program, .start badge program ∈ past ++ [call] := by
        rintro past call ⟨program, listed⟩
        exact ⟨program, List.mem_append_left _ listed⟩
      cases step with
      | start program => exact ⟨program, List.mem_append_right _ List.mem_cons_self⟩
      | drop phase e meant idle => exact further (ih begun)
      | refuse | serve | handle | close => exact further (ih nofun)

theorem once (life : Lifecycle badge phase calls) :
    calls.countP Upcall.isStart ≤ 1 ∧ calls.countP Upcall.isStarted ≤ 1 ∧
      calls.countP Upcall.isClose ≤ calls.countP Upcall.isStarted := by
  obtain ⟨starts, rest⟩ := Prod.mk.inj life.tally
  obtain ⟨started, closes⟩ := Prod.mk.inj rest
  rw [starts, started, closes]
  cases phase <;> simp

theorem settled (life : Lifecycle badge phase calls) (idle : phase.isIdle = true) :
    calls.countP Upcall.isClose = calls.countP Upcall.isStarted := by
  obtain ⟨starts, rest⟩ := Prod.mk.inj life.tally
  obtain ⟨started, closes⟩ := Prod.mk.inj rest
  rw [started, closes]
  cases phase with
  | unstarted | refused | ended => rfl
  | starting | serving => cases idle

end Lifecycle

theorem filter_apart {α β : Type} [DecidableEq β] (f : α → β) (l : List α) (a : α) (member : a ∈ l)
    (apart : (l.map f).Nodup) : l.filter (fun b => f b == f a) = [a] := by
  induction l with
  | nil => cases member
  | cons b rest ih =>
      obtain ⟨fresh, apart⟩ := List.nodup_cons.mp apart
      rcases List.mem_cons.mp member with rfl | later
      · rw [List.filter_cons_of_pos (by simp), List.filter_eq_nil_iff.mpr]
        intro other listed
        rw [beq_iff_eq]
        exact fun same => fresh (same ▸ List.mem_map_of_mem listed)
      · have differs : f b ≠ f a := fun same => fresh (same ▸ List.mem_map_of_mem later)
        rw [List.filter_cons_of_neg (by simpa using differs)]
        exact ih later apart

theorem RunLoop.loaded_some (inst : InstanceId) (a : Loaded) (l : RunLoop) (loaded : l.loaded? inst = some a) :
    a ∈ l.apps ∧ a.badge.inst = inst :=
  ⟨List.mem_of_find?_eq_some loaded, by simpa using List.find?_some loaded⟩

theorem RunLoop.evict_perm (inst : InstanceId) (a : Loaded) (l : RunLoop) (apart : (l.apps.map (·.badge.inst)).Nodup)
    (loaded : l.loaded? inst = some a) : l.apps.Perm (a :: (l.evict inst).apps) := by
  obtain ⟨there, same⟩ := loaded_some _ _ _ loaded
  have single := filter_apart (fun b : Loaded => b.badge.inst) l.apps a there apart
  rw [same] at single
  have parts := List.filter_append_perm (fun b : Loaded => b.badge.inst == inst) l.apps
  rw [single] at parts
  exact parts.symm

namespace Seat

def nanoapps (s : Seat) : List Loaded := s.loop.apps ++ s.loop.leaving

def members (s : Seat) : List Badge := s.nanoapps.map (·.badge)

structure Housed (σ : Stage) (s : Seat) : Prop where
  left : σ ≠ .ending → s.loop.leaving = []
  known : s.coming + s.members ≤ (s.requested : Multiset Badge)

def Away (s : Seat) (badge : Badge) : Prop := badge ∈ s.requested ∧ badge ∉ s.coming + s.members

-- Where the nanoapp is while it is in that phase.
def Stands (s : Seat) (badge : Badge) : Phase → Prop
  | .unstarted => badge ∉ s.members ∧ ∀ program, .install badge program ∉ s.hand
  | .starting program => .install badge program ∈ s.hand
  | .serving program => ⟨badge, program⟩ ∈ s.nanoapps
  | .refused | .ended => s.Away badge

def Leads (calls : List Upcall) (s s' : Seat) : Prop :=
  ∀ badge phase, s.Stands badge phase →
    (calls.filter (·.concerns badge) = [] ∧ s'.Stands badge phase) ∨
      ∃ call phase', calls.filter (·.concerns badge) = [call] ∧ Phase.Step badge phase call phase' ∧ s'.Stands badge phase'

def Lives (calls : List Upcall) (s : Seat) : Prop :=
  ∀ badge, ∃ phase, Lifecycle badge phase (calls.filter (·.concerns badge)) ∧ s.Stands badge phase

theorem lives_leads (calls more : List Upcall) (s s' : Seat) (leads : Leads more s s') (lives : s.Lives calls) :
    s'.Lives (calls ++ more) := by
  intro badge
  obtain ⟨phase, life, stands⟩ := lives badge
  rw [List.filter_append]
  rcases leads badge phase stands with ⟨none, stands'⟩ | ⟨call, phase', single, step, stands'⟩
  · rw [none, List.append_nil]
    exact ⟨phase, life, stands'⟩
  · rw [single]
    exact ⟨phase', .snoc life step, stands'⟩

theorem install_coming (s : Seat) (badge : Badge) (program : Program Action) (held : .install badge program ∈ s.hand) :
    badge ∈ s.coming :=
  Multiset.mem_add.mpr (.inr (Multiset.mem_filterMap _ _ |>.mpr ⟨_, held, rfl⟩))

theorem load_coming (s : Seat) (badge : Badge) (program : Program Action) (queue : List Task)
    (waits : s.loop.queue.toList = .load badge program :: queue) : badge ∈ s.coming :=
  Multiset.mem_add.mpr (.inl (List.mem_filterMap.mpr ⟨_, waits ▸ List.mem_cons_self, rfl⟩))

theorem mem_members (s : Seat) (badge : Badge) (program : Program Action) (there : ⟨badge, program⟩ ∈ s.nanoapps) :
    badge ∈ s.members :=
  List.mem_map.mpr ⟨_, there, rfl⟩

theorem nanoapps_open (σ : Stage) (s : Seat) (housed : s.Housed σ) (steady : σ ≠ .ending) : s.nanoapps = s.loop.apps := by
  rw [nanoapps, housed.left steady, List.append_nil]

theorem away_kept (s s' : Seat) (badge : Badge) (requested : s.requested ⊆ s'.requested)
    (fewer : badge ∈ s.requested → badge ∈ s'.coming + s'.members → badge ∈ s.coming + s.members)
    (away : s.Away badge) : s'.Away badge :=
  ⟨requested away.1, fun around => away.2 (fewer away.1 around)⟩

theorem idle_install (s : Seat) (idle : s.hand = 0) (badge : Badge) (program : Program Action) :
    .install badge program ∉ s.hand := by
  rw [idle]
  exact Multiset.notMem_zero _

theorem around_apart (σ : Stage) (s : Seat) (numbered : s.Numbered) (few : s.requested.length ≤ instanceLimit)
    (housed : s.Housed σ) : ((s.coming + s.members).map (·.inst)).Nodup :=
  Multiset.nodup_of_le (Multiset.map_le_map housed.known) (Multiset.coe_nodup.mpr (numbered.apart few))

theorem members_apart (σ : Stage) (s : Seat) (numbered : s.Numbered) (few : s.requested.length ≤ instanceLimit)
    (housed : s.Housed σ) : (s.nanoapps.map (·.badge.inst)).Nodup := by
  have apart := around_apart σ s numbered few housed
  rw [Multiset.map_add] at apart
  have listed := Multiset.coe_nodup.mp (Multiset.nodup_of_le (Multiset.le_add_left _ _) apart)
  rwa [members, List.map_map] at listed

theorem apps_apart (σ : Stage) (s : Seat) (numbered : s.Numbered) (few : s.requested.length ≤ instanceLimit)
    (housed : s.Housed σ) (a b : Loaded) (here : a ∈ s.nanoapps) (there : b ∈ s.nanoapps)
    (same : a.badge.inst = b.badge.inst) : a = b :=
  List.inj_on_of_nodup_map (members_apart σ s numbered few housed) here there same

theorem stands_coming (s : Seat) (badge : Badge) (phase : Phase) (apart : (s.coming + s.members).Nodup)
    (stands : s.Stands badge phase) (comes : badge ∈ s.coming) :
    phase = .unstarted ∨ ∃ program, phase = .starting program ∧ .install badge program ∈ s.hand := by
  have around : badge ∈ s.coming + s.members := Multiset.mem_add.mpr (.inl comes)
  cases phase with
  | unstarted => exact .inl rfl
  | starting program => exact .inr ⟨program, rfl, stands⟩
  | serving program =>
      rw [Multiset.nodup_add] at apart
      exact absurd (mem_members s badge program stands) (Multiset.disjoint_left.mp apart.2.2 comes)
  | refused | ended => exact absurd around stands.2

theorem stands_member (σ : Stage) (s : Seat) (badge : Badge) (program : Program Action) (phase : Phase) (numbered : s.Numbered)
    (few : s.requested.length ≤ instanceLimit) (housed : s.Housed σ) (stands : s.Stands badge phase)
    (there : ⟨badge, program⟩ ∈ s.nanoapps) : phase = .serving program := by
  have member := mem_members s badge program there
  have around : badge ∈ s.coming + s.members := Multiset.mem_add.mpr (.inr member)
  cases phase with
  | unstarted => exact absurd member stands.1
  | starting other =>
      have apart := Multiset.Nodup.of_map _ (around_apart σ s numbered few housed)
      rw [Multiset.nodup_add] at apart
      exact absurd member (Multiset.disjoint_left.mp apart.2.2 (install_coming s badge other stands))
  | serving other =>
      have same := apps_apart σ s numbered few housed ⟨badge, other⟩ ⟨badge, program⟩ stands there rfl
      rw [Loaded.mk.inj same |>.2]
  | refused | ended => exact absurd around stands.2

theorem stands_still (s s' : Seat) (badge : Badge) (phase : Phase) (nanoapps : s'.nanoapps = s.nanoapps)
    (hand : ∀ program, .install badge program ∈ s'.hand ↔ .install badge program ∈ s.hand)
    (requested : s.requested ⊆ s'.requested) (fewer : badge ∈ s.requested → badge ∈ s'.coming → badge ∈ s.coming)
    (stands : s.Stands badge phase) : s'.Stands badge phase := by
  have members : s'.members = s.members := by rw [Seat.members, nanoapps, Seat.members]
  have away : s.Away badge → s'.Away badge := by
    refine away_kept s s' badge requested fun known around => ?_
    rw [members] at around
    exact Multiset.mem_add.mpr ((Multiset.mem_add.mp around).imp_left (fewer known))
  cases phase with
  | unstarted => exact ⟨members ▸ stands.1, fun program held => stands.2 program ((hand program).mp held)⟩
  | starting program => exact (hand program).mpr stands
  | serving program =>
      change (⟨badge, program⟩ : Loaded) ∈ s'.nanoapps
      rw [nanoapps]
      exact stands
  | refused | ended => exact away stands

theorem stands_closed (σ : Stage) (s : Seat) (badge : Badge) (phase : Phase) (fits : s.Fits σ) (housed : s.Housed σ)
    (stands : s.Stands badge phase) (closed : σ.isOpen = false) (past : σ ≠ .ending) : phase.isIdle = true := by
  cases phase with
  | unstarted | refused | ended => rfl
  | starting program =>
      change Epilogue.install badge program ∈ s.hand at stands
      by_cases sweeps : σ = .sweeping
      · cases fits.sweeping sweeps _ stands
      · have idle : σ.load = 0 := by cases σ <;> simp_all [Stage.load, Stage.isOpen]
        rw [fits_idle σ s fits idle] at stands
        exact absurd stands (Multiset.notMem_zero _)
  | serving program =>
      change (⟨badge, program⟩ : Loaded) ∈ s.nanoapps at stands
      rw [nanoapps_open σ s housed past, fits.apps closed] at stands
      cases stands

theorem leads_still (s s' : Seat) (each : ∀ badge phase, s.Stands badge phase → s'.Stands badge phase) : Leads [] s s' :=
  fun badge phase stands => .inl ⟨rfl, each badge phase stands⟩

theorem leads_grow (s s' : Seat) (grow : s.Grow s') (numbered : s'.Numbered) (few : s'.requested.length ≤ instanceLimit) :
    Leads [] s s' := by
  have pushed : ∀ (t : Task) (queue : Fifo Task) (badge : Badge), badge ∈ (queue.push t).toList.filterMap Task.badge? →
      t.badge? = some badge ∨ badge ∈ queue.toList.filterMap Task.badge? := by
    intro t queue badge member
    rw [Fifo.toList_push, List.filterMap_append, List.mem_append] at member
    rcases member with old | new
    · exact .inr old
    · cases silent : t.badge? <;> simp_all
  have quiet : ∀ (t : Task) (loop : RunLoop) (log : Log) (badge : Badge), t.badge? = none →
      loop.queue = s.loop.queue.push t → badge ∈ coming { s with loop := loop, log := log } → badge ∈ s.coming := by
    intro t loop log badge silent queue comes
    simp only [coming, queue] at comes
    rcases Multiset.mem_add.mp comes with waits | held
    · rcases pushed t _ badge (Multiset.mem_coe.mp waits) with new | old
      · rw [silent] at new
        cases new
      · exact Multiset.mem_add.mpr (.inl (Multiset.mem_coe.mpr old))
    · exact Multiset.mem_add.mpr (.inr held)
  refine leads_still s s' fun badge phase stands => ?_
  cases grow with
  | steer owner stopRequested =>
      exact stands_still s _ badge phase rfl (fun _ => .rfl) (List.Subset.refl _) (fun _ => id) stands
  | halt attached =>
      exact stands_still s _ badge phase rfl (fun _ => .rfl) (List.Subset.refl _)
        (fun _ => quiet .stop _ _ badge rfl rfl) stands
  | accept t l plain taken =>
      have silent : t.badge? = none := by cases t <;> first | rfl | exact absurd trivial plain
      rw [RunLoop.enqueue_cases t s.loop l taken]
      exact stands_still s _ badge phase rfl (fun _ => .rfl) (List.Subset.refl _)
        (fun _ => quiet t _ _ badge silent rfl) stands
  | request other issued =>
      exact stands_still s _ badge phase rfl (fun _ => .rfl) (List.subset_cons_self other _) (fun _ => id) stands
  | load other program l issued taken =>
      -- The nanoapp that is asked for was never asked for before.
      have fresh : other ∉ s.requested := fun old =>
        (List.nodup_cons.mp (numbered.apart few)).1 (List.mem_map_of_mem old)
      rw [RunLoop.enqueue_cases _ _ l taken]
      refine stands_still s _ badge phase rfl (fun _ => .rfl) (List.subset_cons_self other _) (fun known comes => ?_) stands
      rcases Multiset.mem_add.mp comes with waits | held
      · rcases pushed _ _ badge (Multiset.mem_coe.mp waits) with new | old
        · cases new
          exact absurd known fresh
        · exact Multiset.mem_add.mpr (.inl (Multiset.mem_coe.mpr old))
      · exact Multiset.mem_add.mpr (.inr held)

variable {s s' : Seat} {σ : Stage}

theorem coming_popped (t : Task) (queue : Fifo Task) (rest : Epilogue) (waits : s.loop.queue.toList = t :: queue.toList)
    (queue' : s'.loop.queue = queue) (hand : s'.hand = rest ::ₘ s.hand) (badge : Badge) (comes : badge ∈ s'.coming) :
    rest.badge? = some badge ∨ badge ∈ s.coming := by
  rw [coming, queue', hand, filterMap_held] at comes
  rcases Multiset.mem_add.mp comes with waiting | held
  · refine .inr (Multiset.mem_add.mpr (.inl ?_))
    rw [waiting_pop t _ _ waits]
    exact Multiset.mem_add.mpr (.inr waiting)
  · rcases Multiset.mem_add.mp held with here | there
    · exact .inl (Option.mem_toList.mp (Multiset.mem_coe.mp here))
    · exact .inr (Multiset.mem_add.mpr (.inr there))

theorem leads_aside (t : Task) (queue : Fifo Task) (rest : Epilogue) (waits : s.loop.queue.toList = t :: queue.toList)
    (queue' : s'.loop.queue = queue) (hand : s'.hand = rest ::ₘ s.hand) (silent : rest.badge? = none)
    (nanoapps : s'.nanoapps = s.nanoapps) (requested : s'.requested = s.requested) : Leads [] s s' := by
  refine leads_still s s' fun badge phase stands => ?_
  refine stands_still s s' badge phase nanoapps (fun program => ?_) (by rw [requested]; exact List.Subset.refl _)
    (fun _ comes => ?_) stands
  · rw [hand, Multiset.mem_cons]
    refine or_iff_right ?_
    rintro rfl
    cases silent
  · rcases coming_popped t queue rest waits queue' hand badge comes with here | there
    · rw [silent] at here
      cases here
    · exact there

theorem leads_conclude (rest : Epilogue) (hand : Multiset Epilogue) (held : s.hand = rest ::ₘ hand) (hand' : s'.hand = hand)
    (silent : rest.badge? = none) (queue : s'.loop.queue = s.loop.queue) (nanoapps : s'.nanoapps = s.nanoapps)
    (requested : s'.requested = s.requested) : Leads [] s s' := by
  refine leads_still s s' fun badge phase stands => ?_
  refine stands_still s s' badge phase nanoapps (fun program => ?_) (by rw [requested]; exact List.Subset.refl _)
    (fun _ comes => ?_) stands
  · rw [hand', held, Multiset.mem_cons]
    refine (or_iff_right ?_).symm
    rintro rfl
    cases silent
  · rw [coming, queue, hand'] at comes
    rw [coming, held, filterMap_held, silent]
    exact Multiset.mem_add.mpr ((Multiset.mem_add.mp comes).imp_right fun there => Multiset.mem_add.mpr (.inr there))

theorem leads_discard (t : Task) (queue : Fifo Task) (waits : s.loop.queue.toList = t :: queue.toList)
    (queue' : s'.loop.queue = queue) (nanoapps : s'.nanoapps = s.nanoapps) (hand : s'.hand = s.hand)
    (requested : s'.requested = s.requested) : Leads [] s s' := by
  have fewer := coming_pop t queue s s' waits queue' hand
  refine leads_still s s' fun badge phase stands => ?_
  exact stands_still s s' badge phase nanoapps (fun _ => by rw [hand]) (by rw [requested]; exact List.Subset.refl _)
    (fun _ => Multiset.mem_of_le fewer) stands

theorem leads_modify (f : RunLoop → RunLoop) (queue : (f s.loop).queue = s.loop.queue)
    (nanoapps : nanoapps { s with loop := f s.loop } = s.nanoapps) : Leads [] s { s with loop := f s.loop } := by
  refine leads_still s _ fun badge phase stands => ?_
  refine stands_still s _ badge phase nanoapps (fun _ => .rfl) (List.Subset.refl _) (fun _ comes => ?_) stands
  rw [coming, queue] at comes
  exact comes

theorem leads_drop (e : Event) (absent : ∀ a ∈ s.nanoapps, a.badge.inst ≠ e.target) (idle : ∀ badge program, .install badge program ∉ s.hand)
    (still : Leads [] s s') : Leads [.drop e] s s' := by
  intro badge phase stands
  have stands' : s'.Stands badge phase := by
    rcases still badge phase stands with ⟨-, stands'⟩ | ⟨call, phase', single, -⟩
    · exact stands'
    · cases single
  by_cases meant : e.target = badge.inst
  · refine .inr ⟨.drop e, phase, by simp [Upcall.concerns, meant], .drop phase e meant ?_, stands'⟩
    cases phase with
    | unstarted | refused | ended => rfl
    | starting program => exact absurd stands (idle badge program)
    | serving program => exact absurd meant.symm (absent _ stands)
  · exact .inl ⟨by simp [Upcall.concerns, meant], stands'⟩

theorem leads_pass (e : Event) (other : Badge) (program : Program Action) (queue : Fifo Task) (numbered : s.Numbered)
    (few : s.requested.length ≤ instanceLimit) (housed : s.Housed σ)
    (waits : s.loop.queue.toList = .event e :: queue.toList) (there : ⟨other, program⟩ ∈ s.nanoapps)
    (inst : other.inst = e.target) (queue' : s'.loop.queue = queue) (hand : s'.hand = .consume e ::ₘ s.hand)
    (requested : s'.requested = s.requested)
    (nanoapps : s'.nanoapps = s.nanoapps.map fun a =>
      if a.badge.inst == other.inst then { a with program := program.nextScript.2 } else a) :
    Leads [.handle other program e] s s' := by
  have members : s'.members = s.members := by
    rw [members, nanoapps, List.map_map, members]
    refine List.map_congr_left fun a _ => ?_
    simp only [Function.comp_apply]
    split <;> rfl
  have held : ∀ badge program, .install badge program ∈ s'.hand ↔ .install badge program ∈ s.hand := by
    intro badge program
    rw [hand, Multiset.mem_cons]
    exact or_iff_right (by simp)
  have fewer : ∀ badge, badge ∈ s'.coming → badge ∈ s.coming := by
    intro badge comes
    exact (coming_popped (.event e) queue _ waits queue' hand badge comes).resolve_left (by simp [Epilogue.badge?])
  have away : ∀ badge, s.Away badge → s'.Away badge := by
    refine fun badge => away_kept s s' badge (by rw [requested]; exact List.Subset.refl _) fun _ around => ?_
    rw [members] at around
    exact Multiset.mem_add.mpr ((Multiset.mem_add.mp around).imp_left (fewer badge))
  intro badge phase stands
  by_cases same : other = badge
  · subst same
    have serving := stands_member σ s other program phase numbered few housed stands there
    subst serving
    refine .inr ⟨_, _, by simp [Upcall.concerns], .handle program e inst.symm, ?_⟩
    change (⟨other, program.nextScript.2⟩ : Loaded) ∈ s'.nanoapps
    rw [nanoapps]
    exact List.mem_map.mpr ⟨_, there, by simp⟩
  · refine .inl ⟨by simp [Upcall.concerns, same], ?_⟩
    cases phase with
    | unstarted => exact ⟨members ▸ stands.1, fun program member => stands.2 program ((held badge program).mp member)⟩
    | starting program => exact (held badge program).mpr stands
    | serving own =>
        change (⟨badge, own⟩ : Loaded) ∈ s'.nanoapps
        have apart : badge.inst ≠ other.inst := by
          intro equal
          have one := apps_apart σ s numbered few housed ⟨other, program⟩ ⟨badge, own⟩ there stands equal.symm
          exact same (Loaded.mk.inj one).1
        rw [nanoapps]
        exact List.mem_map.mpr ⟨_, stands, by simp [apart]⟩
    | refused | ended => exact away badge stands

theorem leads_load (other : Badge) (program : Program Action) (queue : Fifo Task) (apart : (s.coming + s.members).Nodup)
    (idle : s.hand = 0) (waits : s.loop.queue.toList = .load other program :: queue.toList)
    (queue' : s'.loop.queue = queue) (hand : s'.hand = .install other program ::ₘ s.hand)
    (requested : s'.requested = s.requested) (nanoapps : s'.nanoapps = s.nanoapps) :
    Leads [.start other program] s s' := by
  have comes := load_coming s other program _ waits
  intro badge phase stands
  by_cases same : other = badge
  · subst same
    rcases stands_coming s other phase apart stands comes with rfl | ⟨own, rfl, held⟩
    · refine .inr ⟨_, _, by simp [Upcall.concerns], .start program, ?_⟩
      change Epilogue.install other program ∈ s'.hand
      rw [hand]
      exact Multiset.mem_cons_self _ _
    · exact absurd held (idle_install s idle other own)
  · refine .inl ⟨by simp [Upcall.concerns, same], ?_⟩
    refine stands_still s s' badge phase nanoapps (fun own => ?_) (by rw [requested]; exact List.Subset.refl _)
      (fun _ coming => ?_) stands
    · rw [hand, Multiset.mem_cons]
      refine or_iff_right fun equal => same ?_
      cases equal
      rfl
    · refine (coming_popped (.load other program) queue _ waits queue' hand badge coming).resolve_left fun equal => same ?_
      cases equal
      rfl

theorem leads_install (other : Badge) (program : Program Action) (apart : (s.coming + s.members).Nodup)
    (held : s.hand = {.install other program}) (starts : program.starts = true)
    (placed : s'.nanoapps.Perm (⟨other, program.afterStart⟩ :: s.nanoapps)) (queue : s'.loop.queue = s.loop.queue)
    (hand : s'.hand = 0) (requested : s'.requested = s.requested) : Leads [.answer other true] s s' := by
  have members : ∀ badge, badge ∈ s'.members ↔ badge = other ∨ badge ∈ s.members := fun badge =>
    (placed.map (·.badge)).mem_iff.trans List.mem_cons
  have entering : .install other program ∈ s.hand := held ▸ Multiset.mem_singleton_self _
  have comes := install_coming s other program entering
  have fewer : ∀ badge, badge ∈ s'.coming + s'.members → badge ∈ s.coming + s.members := by
    intro badge around
    rcases Multiset.mem_add.mp around with coming | there
    · rw [Seat.coming, hand, queue] at coming
      rcases Multiset.mem_add.mp coming with waits | none
      · exact Multiset.mem_add.mpr (.inl (Multiset.mem_add.mpr (.inl waits)))
      · exact absurd none (Multiset.notMem_zero _)
    · rcases (members badge).mp there with rfl | old
      · exact Multiset.mem_add.mpr (.inl comes)
      · exact Multiset.mem_add.mpr (.inr old)
  have away : ∀ badge, s.Away badge → s'.Away badge := fun badge =>
    away_kept s s' badge (by rw [requested]; exact List.Subset.refl _) fun _ => fewer badge
  intro badge phase stands
  by_cases same : other = badge
  · subst same
    rcases stands_coming s other phase apart stands comes with rfl | ⟨own, rfl, member⟩
    · exact absurd entering (stands.2 program)
    · rw [held] at member
      cases Multiset.mem_singleton.mp member
      refine .inr ⟨_, _, by simp [Upcall.concerns], .serve program starts, ?_⟩
      exact placed.mem_iff.mpr List.mem_cons_self
  · refine .inl ⟨by simp [Upcall.concerns, same], ?_⟩
    cases phase with
    | unstarted =>
        exact ⟨fun there => stands.1 (((members badge).mp there).resolve_left (Ne.symm same)), idle_install s' hand badge⟩
    | starting own =>
        change .install badge own ∈ s.hand at stands
        rw [held] at stands
        cases Multiset.mem_singleton.mp stands
        exact absurd rfl same
    | serving own => exact placed.mem_iff.mpr (List.mem_cons_of_mem _ stands)
    | refused | ended => exact away badge stands

theorem leads_decline (other : Badge) (program : Program Action) (housed : s.Housed σ)
    (apart : (s.coming + s.members).Nodup) (held : s.hand = {.install other program}) (refuses : program.starts = false)
    (queue : s'.loop.queue = s.loop.queue) (nanoapps : s'.nanoapps = s.nanoapps) (hand : s'.hand = 0)
    (requested : s'.requested = s.requested) : Leads [.answer other false] s s' := by
  have members : s'.members = s.members := by rw [Seat.members, nanoapps, Seat.members]
  have entering : .install other program ∈ s.hand := held ▸ Multiset.mem_singleton_self _
  have comes := install_coming s other program entering
  have total : s.coming = s'.coming + {other} := by
    rw [coming, coming, queue, hand, held, add_assoc]
    rfl
  intro badge phase stands
  by_cases same : other = badge
  · subst same
    rcases stands_coming s other phase apart stands comes with rfl | ⟨own, rfl, member⟩
    · exact absurd entering (stands.2 program)
    · rw [held] at member
      cases Multiset.mem_singleton.mp member
      refine .inr ⟨_, _, by simp [Upcall.concerns], .refuse program refuses, ?_, fun around => ?_⟩
      · rw [requested]
        exact Multiset.mem_coe.mp (Multiset.mem_of_le housed.known (Multiset.mem_add.mpr (.inl comes)))
      · rw [total, add_right_comm, ← members, Multiset.nodup_add] at apart
        exact Multiset.disjoint_left.mp apart.2.2 around (Multiset.mem_singleton_self _)
  · refine .inl ⟨by simp [Upcall.concerns, same], ?_⟩
    refine stands_still s s' badge phase nanoapps (fun own => ?_) (by rw [requested]; exact List.Subset.refl _)
      (fun _ coming => ?_) stands
    · rw [hand, held, Multiset.mem_singleton]
      refine iff_of_false (Multiset.notMem_zero _) fun equal => same ?_
      cases equal
      rfl
    · rw [total]
      exact Multiset.mem_add.mpr (.inl coming)

theorem leads_close (a : Loaded) (numbered : s.Numbered) (few : s.requested.length ≤ instanceLimit)
    (housed : s.Housed σ) (idle : ∀ badge program, .install badge program ∉ s.hand)
    (ended : s.nanoapps.Perm (a :: s'.nanoapps)) (requested : s'.requested = s.requested)
    (hand : ∀ badge program, .install badge program ∉ s'.hand) (fewer : ∀ badge, badge ∈ s'.coming → badge ∈ s.coming) :
    Leads [.close a.badge a.program] s s' := by
  have there : a ∈ s.nanoapps := ended.mem_iff.mpr List.mem_cons_self
  have apart := around_apart σ s numbered few housed
  have members : ∀ badge, badge ∈ s.members ↔ badge = a.badge ∨ badge ∈ s'.members := fun badge =>
    (ended.map (·.badge)).mem_iff.trans List.mem_cons
  have away : ∀ badge, s.Away badge → s'.Away badge := fun badge =>
    away_kept s s' badge (by rw [requested]; exact List.Subset.refl _) fun _ around =>
      Multiset.mem_add.mpr ((Multiset.mem_add.mp around).imp (fewer badge) fun stays => (members badge).mpr (.inr stays))
  intro badge phase stands
  by_cases same : a.badge = badge
  · subst same
    have member := mem_members s a.badge a.program there
    have serving := stands_member σ s a.badge a.program phase numbered few housed stands there
    subst serving
    refine .inr ⟨_, _, by simp [Upcall.concerns], .close a.program, ?_, fun around => ?_⟩
    · rw [requested]
      exact Multiset.mem_coe.mp (Multiset.mem_of_le housed.known (Multiset.mem_add.mpr (.inr member)))
    · rcases Multiset.mem_add.mp around with comes | stays
      · have once := Multiset.Nodup.of_map _ apart
        exact Multiset.disjoint_left.mp (Multiset.nodup_add.mp once).2.2 (fewer a.badge comes) member
      · have once := (ended.map (·.badge.inst)).nodup_iff.mp (members_apart σ s numbered few housed)
        obtain ⟨b, listed, equal⟩ := List.mem_map.mp stays
        exact (List.nodup_cons.mp once).1 (List.mem_map.mpr ⟨b, listed, congrArg Badge.inst equal⟩)
  · refine .inl ⟨by simp [Upcall.concerns, same], ?_⟩
    cases phase with
    | unstarted => exact ⟨fun stays => stands.1 ((members badge).mpr (.inr stays)), hand badge⟩
    | starting program => exact absurd stands (idle badge program)
    | serving program =>
        rcases List.mem_cons.mp (ended.mem_iff.mp stands) with here | stays
        · exact absurd (congrArg Loaded.badge here).symm same
        · exact stays
    | refused | ended => exact away badge stands

end Seat

end HubRelay
