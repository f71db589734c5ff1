import HubRelay.Proofs.Relay.Requests

/-! The beginning and the end of each task. -/

set_option autoImplicit false

namespace HubRelay

variable {waiting : Multiset Outgoing} {hand : List (Nat × Epilogue)}

def Epilogue.errands (i : Nat) (rest : Epilogue) : Multiset (Nat × Errand) := (rest.errand?.toList.map (i, ·) : List _)

def Epilogue.IsInstall : Epilogue → Prop
  | .install _ _ => True
  | _ => False

theorem hand_errands_cons (i : Nat) (rest : Epilogue) :
    handErrands ((i, rest) :: hand) = rest.errands i + handErrands hand := by
  unfold handErrands Epilogue.errands
  cases errand : rest.errand? <;> simp [errand]

theorem hand_errands_erase (i place : Nat) (rest : Epilogue) (here : hand[place]? = some (i, rest)) :
    handErrands hand = rest.errands i + handErrands (hand.eraseIdx place) := by
  obtain ⟨bound, there⟩ := List.getElem?_eq_some_iff.mp here
  have perm := List.getElem_cons_eraseIdx_perm bound
  rw [there] at perm
  rw [← hand_errands_cons]
  exact Multiset.coe_eq_coe.mpr (perm.symm.filterMap _)

namespace Hub

theorem traffic_hand (h : Hub) (i : Nat) (rest : Epilogue) (plain : ¬rest.IsInstall) :
    h.traffic waiting ((i, rest) :: hand) =
      { h.traffic waiting hand with errands := rest.errands i + (h.traffic waiting hand).errands } := by
  have known : ∀ j badge program, (j, Epilogue.install badge program) ∈ (i, rest) :: hand ↔
      (j, Epilogue.install badge program) ∈ hand := by
    intro j badge program
    cases rest <;> simp_all [Epilogue.IsInstall]
  simp only [traffic, hand_errands_cons, known, add_assoc]

theorem traffic_hand_idle (h : Hub) (i : Nat) (rest : Epilogue) (plain : ¬rest.IsInstall) (idle : rest.errand? = none) :
    h.traffic waiting ((i, rest) :: hand) = h.traffic waiting hand := by
  rw [traffic_hand h i rest plain, Epilogue.errands, idle]
  simp

theorem bears_errand (k : Handle) (n : Nat) (e : Event) (bears : e.bears k n) :
    (Task.event e).errand? = some (.event k n e) ∧ (Epilogue.consume e).errand? = some (.consume k n) := by
  have hook : e.hook = some (.reclaim k n) := bears
  simp only [Task.errand?, Epilogue.errand?, hook, and_self]

theorem event_cases (e : Event) :
    (∃ k n, e.bears k n) ∨
      (∀ k n, ¬e.bears k n) ∧ (Task.event e).errand? = none ∧ (Epilogue.consume e).errand? = none ∧
        ∀ (h : Hub) (w : Multiset Outgoing) (hand : List (Nat × Epilogue)),
          (h.discard e).traffic w hand = h.traffic w hand := by
  unfold Event.bears
  cases hook : e.hook with
  | none =>
      refine .inr ⟨by simp, by simp only [Task.errand?, hook], by simp only [Epilogue.errand?, hook], ?_⟩
      intro h w hand
      simp only [discard, hook]
  | some action =>
      cases action with
      | note label =>
          refine .inr ⟨by simp, by simp only [Task.errand?, hook], by simp only [Epilogue.errand?, hook], ?_⟩
          intro h w hand
          simp only [discard, hook]
          rfl
      | reclaim k n => exact .inl ⟨k, n, rfl⟩

theorem drop_follows (past h : Hub) (i : Nat) (e : Event) (x : Happening) (drops : past.Drops i e x) :
    Follows past
      { h.traffic waiting hand with errands := (Task.event e).errands i + (h.traffic waiting hand).errands }
      (((h.record x).discard e).traffic waiting hand) := by
  rcases event_cases e with ⟨k, n, bears⟩ | ⟨plain, errand, -, same⟩
  · rw [Task.errands_cons i _ _ _ (bears_errand k n e bears).1]
    have hook : e.hook = some (.reclaim k n) := bears
    simp only [discard, hook]
    rw [traffic_reclaim, traffic_record]
    exact .single (.miss i n k e x _ rfl bears drops)
  · rw [Task.errands_none i _ _ errand, same, traffic_record]
    refine .single (.remark x ?_)
    obtain ⟨l, -, ⟨rfl, -⟩ | ⟨rfl, -⟩⟩ := drops
    · exact plain
    · exact plain

theorem pass_follows (past h : Hub) (i : Nat) (e : Event) (badge : Badge) (known : (h.traffic waiting hand).known i badge)
    (aimed : badge.inst = e.target) :
    Follows past
      { h.traffic waiting hand with errands := (Task.event e).errands i + (h.traffic waiting hand).errands }
      ((h.record (.passed i badge e)).traffic waiting ((i, .consume e) :: hand)) := by
  rw [traffic_hand _ _ _ id, traffic_record]
  rcases event_cases e with ⟨k, n, bears⟩ | ⟨plain, errand, rest, -⟩
  · rw [Task.errands_cons i _ _ _ (bears_errand k n e bears).1]
    have consumed : (Epilogue.consume e).errands i + (h.traffic waiting hand).errands =
        (i, .consume k n) ::ₘ (h.traffic waiting hand).errands := by
      rw [Epilogue.errands, (bears_errand k n e bears).2]
      rfl
    simp only [consumed]
    exact .single (.pass i n k e badge _ rfl bears known aimed)
  · have consumed : (Epilogue.consume e).errands i + (h.traffic waiting hand).errands = (h.traffic waiting hand).errands := by
      rw [Epilogue.errands, rest]
      simp
    rw [Task.errands_none i _ _ errand]
    simp only [consumed]
    exact .single (.remark _ plain)

theorem consume_follows (past h : Hub) (i : Nat) (e : Event) :
    Follows past
      { h.traffic waiting hand with errands := (Epilogue.consume e).errands i + (h.traffic waiting hand).errands }
      ((h.discard e).traffic waiting hand) := by
  rcases event_cases e with ⟨k, n, bears⟩ | ⟨plain, -, rest, same⟩
  · have hook : e.hook = some (.reclaim k n) := bears
    rw [Epilogue.errands, (bears_errand k n e bears).2]
    simp only [discard, hook]
    rw [traffic_reclaim]
    exact .single (.finish i k (.consume k n) _ rfl (.inr ⟨n, rfl⟩))
  · rw [Epilogue.errands, rest, same]
    simpa using Relation.ReflTransGen.refl

end Hub

namespace Hub

def Quiet (f : RunLoop → RunLoop) : Prop :=
  ∀ l : RunLoop, (∀ i, (f l).errands i = l.errands i) ∧ (∀ badge, (f l).Knows badge ↔ l.Knows badge) ∧ (f l).desk = l.desk

theorem traffic_modify (h : Hub) (i : Nat) (f : RunLoop → RunLoop) (quiet : Quiet f) :
    (h.modifyLoop i f).traffic waiting hand = h.traffic waiting hand := by
  rcases modify_cases h i f with ⟨-, same⟩ | ⟨l, place, change⟩
  · rw [same]
  · obtain ⟨errands, knows, desk⟩ := quiet l
    rw [change, traffic_set_more h i l (f l) 0 place (by rw [errands, zero_add]) knows desk]
    simp only [zero_add]

end Hub

namespace RunLoop

theorem quiet_freeEvent : Hub.Quiet freeEvent := fun _ => ⟨fun _ => rfl, fun _ => .rfl, rfl⟩
theorem quiet_countDropped : Hub.Quiet countDropped := fun _ => ⟨fun _ => rfl, fun _ => .rfl, rfl⟩
theorem quiet_countDelivered : Hub.Quiet countDelivered := fun _ => ⟨fun _ => rfl, fun _ => .rfl, rfl⟩
theorem quiet_countJob : Hub.Quiet countJob := fun _ => ⟨fun _ => rfl, fun _ => .rfl, rfl⟩
theorem quiet_occupy (thread : Thread) : Hub.Quiet (·.occupy thread) := fun _ => ⟨fun _ => rfl, fun _ => .rfl, rfl⟩

theorem quiet_setProgram (inst : InstanceId) (program : Program Action) : Hub.Quiet (·.setProgram inst program) := by
  refine fun l => ⟨fun _ => rfl, fun badge => ?_, rfl⟩
  have same : (∃ a ∈ (l.setProgram inst program).apps, a.badge = badge) ↔ ∃ a ∈ l.apps, a.badge = badge := by
    simp only [setProgram, List.mem_map]
    constructor
    · rintro ⟨-, ⟨a, member, rfl⟩, equal⟩
      refine ⟨a, member, ?_⟩
      split at equal <;> exact equal
    · rintro ⟨a, member, equal⟩
      refine ⟨_, ⟨a, member, rfl⟩, ?_⟩
      split <;> exact equal
  simp only [Knows, same]
  rfl

theorem mem_placeApp (a b : Loaded) (apps : List Loaded) (member : b ∈ placeApp a apps) : b = a ∨ b ∈ apps := by
  induction apps with
  | nil => exact .inl (List.mem_singleton.mp member)
  | cons c rest ih =>
      rw [placeApp] at member
      split at member
      · exact List.mem_cons.mp member
      · split at member
        · rcases List.mem_cons.mp member with rfl | member
          · exact .inl rfl
          · exact .inr (List.mem_cons_of_mem c member)
        · rcases List.mem_cons.mp member with rfl | member
          · exact .inr List.mem_cons_self
          · exact (ih member).imp id (List.mem_cons_of_mem c)

theorem quiet_stop (caller : Option Thread) : Hub.Quiet (·.stop caller) := by
  intro l
  simp only [stop]
  split
  · exact ⟨fun _ => rfl, fun _ => .rfl, rfl⟩
  · split
    · refine ⟨fun i => ?_, fun badge => ?_, rfl⟩
      · rw [errands_push i .stop l _ rfl]
        exact Task.errands_none i _ _ rfl
      · simp [Knows]
    · exact ⟨fun _ => rfl, fun _ => .rfl, rfl⟩

end RunLoop

namespace Stack

theorem modify_traffic (s : Stack) (i : Nat) (f : RunLoop → RunLoop) (quiet : Hub.Quiet f) :
    (s.modifyLoop i f).traffic hand = s.traffic hand :=
  s.hub.traffic_modify i f quiet

theorem call_traffic (s : Stack) (i : Nat) (x : Upcall) : (s.onHub (·.call i x)).traffic hand = s.traffic hand := rfl

theorem modify_follows (past : Hub) (s : Stack) (i : Nat) (f : RunLoop → RunLoop)
    (errands : ∀ l : RunLoop, (f l).errands i = l.errands i)
    (knows : ∀ l badge, (f l).Knows badge → l.Knows badge) (desk : ∀ l, (f l).desk = l.desk) :
    Follows past (s.traffic hand) ((s.modifyLoop i f).traffic hand) :=
  Hub.follows_modify past s.hub i f errands knows desk

theorem next_traffic (s next : Stack) (i : Nat) (t : Task) (plain : ¬t.IsLoad) (taken : s.next? i = some (t, next)) :
    s.traffic hand = { next.traffic hand with errands := t.errands i + (next.traffic hand).errands } := by
  obtain ⟨l, queue, place, waits, rfl⟩ := next_cases i t s next taken
  refine s.hub.traffic_set_less i l { l with queue := queue } _ place
    (RunLoop.errands_pop i t l { l with queue := queue } waits) ?_ rfl
  intro badge
  simp only [RunLoop.Knows, waits, List.mem_cons]
  cases t <;> simp_all [Task.IsLoad]

theorem next_load (s next : Stack) (i : Nat) (badge : Badge) (program : Program Action)
    (taken : s.next? i = some (.load badge program, next)) :
    s.traffic hand = { next.traffic hand with known := (s.traffic hand).known } ∧ (s.traffic hand).known i badge ∧
      ∀ j b, (next.traffic hand).known j b → (s.traffic hand).known j b := by
  obtain ⟨l, queue, place, waits, rfl⟩ := next_cases i _ s next taken
  have errands : ({ l with queue := queue } : RunLoop).errands i = l.errands i := by
    rw [RunLoop.errands_pop i _ l { l with queue := queue } waits]
    exact (Task.errands_none i _ _ rfl).symm
  refine ⟨?_, .inr ⟨l, place, .inr (.inr ⟨program, by simp [waits]⟩)⟩, ?_⟩
  · simp only [traffic, onHub, Hub.traffic, Hub.desks_set s.hub i l { l with queue := queue } place rfl,
      gather_set_same RunLoop.errands s.hub.loops i l _ place errands]
  · rintro j b (held | knows)
    · exact .inl held
    · rcases Hub.knows_set_within s.hub i j l { l with queue := queue } b place knows with
        ⟨rfl, listed | loaded | ⟨program', waits'⟩⟩ | there
      · exact .inr ⟨l, place, .inl listed⟩
      · exact .inr ⟨l, place, .inr (.inl loaded)⟩
      · exact .inr ⟨l, place, .inr (.inr ⟨program', by rw [waits]; exact List.mem_cons_of_mem _ waits'⟩)⟩
      · exact .inr there

theorem next_outlook (s next : Stack) (i : Nat) (t : Task) (taken : s.next? i = some (t, next)) :
    s.hub.outlook = next.hub.outlook ∧ next.link = s.link ∧ ∃ l, next.hub.loops[i]? = some l := by
  obtain ⟨l, queue, place, waits, rfl⟩ := next_cases i t s next taken
  refine ⟨(Hub.outlook_set s.hub i l { l with queue := queue } place rfl).symm, rfl, { l with queue := queue }, ?_⟩
  exact List.getElem?_set_self (List.getElem?_eq_some_iff.mp place).1

theorem noteEvent_traffic (badge : Badge) (program : Program Action) (e : Event) (s : Stack) :
    (s.noteEvent badge program e).link = s.link ∧ (s.noteEvent badge program e).traffic hand = s.traffic hand := by
  cases program <;> exact ⟨rfl, rfl⟩

theorem pass_follows (past : Hub) (s : Stack) (i : Nat) (e : Event) (badge : Badge) (known : (s.traffic hand).known i badge)
    (aimed : badge.inst = e.target) :
    Follows past { s.traffic hand with errands := (Task.event e).errands i + (s.traffic hand).errands }
      ((s.onHub (·.record (.passed i badge e))).traffic ((i, .consume e) :: hand)) :=
  Hub.pass_follows past s.hub i e badge known aimed

theorem drop_follows (past : Hub) (s : Stack) (i : Nat) (e : Event) (x : Happening) (drops : past.Drops i e x) :
    Follows past { s.traffic hand with errands := (Task.event e).errands i + (s.traffic hand).errands }
      ((s.onHub fun h => (h.record x).discard e).traffic hand) :=
  Hub.drop_follows past s.hub i e x drops

theorem startEvent_follows (past : Hub) (s : Stack) (i : Nat) (e : Event) (l : RunLoop) (same : past.outlook = s.hub.outlook)
    (place : s.hub.loops[i]? = some l) :
    (s.startEvent i e).2.2.link = s.link ∧
      Follows past { s.traffic hand with errands := (Task.event e).errands i + (s.traffic hand).errands }
        ((s.startEvent i e).2.2.traffic ((i, (s.startEvent i e).2.1) :: hand)) := by
  have freed : (s.modifyLoop i RunLoop.freeEvent).traffic hand = s.traffic hand :=
    modify_traffic s i _ RunLoop.quiet_freeEvent
  have here : (s.modifyLoop i RunLoop.freeEvent).loop? i = some l.freeEvent := by
    simp [loop?, modifyLoop, onHub, Hub.modifyLoop, place]
  unfold startEvent
  simp only [here, Option.bind_some]
  split
  · next missing =>
      refine ⟨rfl, ?_⟩
      obtain ⟨l', there, equal⟩ := Hub.loop_outlook s.hub past i l same.symm place
      have apps := congrArg RunLoop.apps equal
      have drops : past.Drops i e (.missed i e) := by
        refine ⟨l', there, .inl ⟨rfl, ?_⟩⟩
        rw [RunLoop.loaded?, ← show l.apps = l'.apps from apps]
        exact missing
      let counted := ((s.modifyLoop i RunLoop.freeEvent).modifyLoop i RunLoop.countDropped).onHub (·.call i (.drop e))
      have same : counted.traffic hand = s.traffic hand := (modify_traffic _ i _ RunLoop.quiet_countDropped).trans freed
      have dropped := @drop_follows hand past counted i e _ drops
      rw [same] at dropped
      exact follows_to dropped (Hub.traffic_hand_idle _ i .nothing id rfl)
  · next badge program loaded =>
      have quiet : ((s.modifyLoop i RunLoop.freeEvent).modifyLoop i
          (·.setProgram badge.inst program.nextScript.2)).traffic hand = s.traffic hand :=
        (modify_traffic _ i _ (RunLoop.quiet_setProgram _ _)).trans freed
      obtain ⟨link, noted⟩ := @noteEvent_traffic hand badge program e
        ((s.modifyLoop i RunLoop.freeEvent).modifyLoop i (·.setProgram badge.inst program.nextScript.2))
      have known : (s.traffic hand).known i badge :=
        .inr ⟨l, place, .inr (.inl ⟨_, List.mem_of_find?_eq_some loaded, rfl⟩)⟩
      have aimed : badge.inst = e.target := by simpa using List.find?_some loaded
      rw [quiet] at noted
      refine ⟨link, ?_⟩
      rw [← noted] at known ⊢
      exact pass_follows past _ i e badge known aimed

theorem startJob_follows (past : Hub) (s : Stack) (i : Nat) (j : Job) (same : past.outlook = s.hub.outlook) :
    (s.startJob j).2.2.link = s.link ∧
      Follows past { s.traffic hand with errands := (Task.job j).errands i + (s.traffic hand).errands }
        ((s.startJob j).2.2.traffic ((i, (s.startJob j).2.1) :: hand)) := by
  refine ⟨by cases j <;> rfl, ?_⟩
  cases j with
  | user label script =>
      rw [Task.errands_none i _ _ rfl]
      exact follows_to .refl (Hub.traffic_hand_idle _ i .countJob id rfl)
  | handBack k n callback payload =>
      rw [Task.errands_cons i _ _ _ rfl]
      exact follows_to (.single (.free i n k callback payload _ rfl)) (Hub.traffic_hand _ i (.giveBack k) id)
  | retry k n =>
      rw [Task.errands_cons i _ _ _ rfl]
      exact follows_to (Hub.retry_follows past s.hub i n k same) (Hub.traffic_hand_idle _ i .countJob id rfl)

theorem startLoad_follows (past : Hub) (s : Stack) (i : Nat) (badge : Badge) (program : Program Action)
    (known : Nat → Badge → Prop) (here : known i badge) (within : ∀ j b, (s.traffic hand).known j b → known j b) :
    (s.startLoad i badge program).2.2.link = s.link ∧
      Follows past { s.traffic hand with known := known }
        ((s.startLoad i badge program).2.2.traffic ((i, (s.startLoad i badge program).2.1) :: hand)) := by
  have narrowed : Follows past { s.traffic hand with known := known } (s.traffic hand) := .single (.narrow _ within)
  unfold startLoad
  split
  · exact ⟨rfl, follows_to narrowed (Hub.traffic_hand_idle _ i .nothing id rfl)⟩
  · have noted : (s.noteStart i badge program).link = s.link ∧ (s.noteStart i badge program).traffic hand = s.traffic hand := by
      unfold noteStart
      split <;> exact ⟨rfl, rfl⟩
    refine ⟨noted.1, ?_⟩
    have held : (s.noteStart i badge program).traffic ((i, .install badge program) :: hand) =
        { s.traffic hand with
          known := ((s.noteStart i badge program).traffic ((i, .install badge program) :: hand)).known } := by
      rw [← noted.2]
      simp only [traffic, Hub.traffic, hand_errands_cons, Epilogue.errands, Epilogue.errand?]
      simp
    rw [call_traffic, held]
    refine .single (.narrow _ fun j b knows => ?_)
    rcases knows with ⟨program', member⟩ | knows
    · rcases List.mem_cons.mp member with equal | member
      · cases equal
        exact here
      · exact within j b (.inl ⟨program', member⟩)
    · refine within j b ?_
      rw [← noted.2]
      exact .inr knows

theorem startUnload_follows (past : Hub) (s : Stack) (i : Nat) (app : AppId) :
    (s.startUnload i app).2.2.link = s.link ∧
      Follows past (s.traffic hand) ((s.startUnload i app).2.2.traffic ((i, (s.startUnload i app).2.1) :: hand)) := by
  unfold startUnload
  split
  · exact ⟨rfl, follows_to .refl (Hub.traffic_hand_idle _ i .nothing id rfl)⟩
  · next badge found =>
      have struck : Follows past (s.traffic hand) ((s.modifyLoop i (·.strike app)).traffic hand) := by
        refine modify_follows past s i _ (fun _ => rfl) (fun l b knows => ?_) fun _ => rfl
        rcases knows with listed | other
        · exact .inl (List.mem_filter.mp listed).1
        · exact .inr other
      simp only
      split
      · exact ⟨rfl, follows_to struck (Hub.traffic_hand_idle _ i .nothing id rfl)⟩
      · next a loaded =>
          have evicted : Follows past ((s.modifyLoop i (·.strike app)).traffic hand)
              (((s.modifyLoop i (·.strike app)).modifyLoop i (·.evict badge.inst)).traffic hand) := by
            refine modify_follows past _ i _ (fun _ => rfl) (fun l b knows => ?_) fun _ => rfl
            rcases knows with listed | ⟨a, member, equal⟩ | waits
            · exact .inl listed
            · exact .inr (.inl ⟨a, (List.mem_filter.mp member).1, equal⟩)
            · exact .inr (.inr waits)
          have noted : ∀ s' : Stack, (s'.noteEnd a).link = s'.link ∧ (s'.noteEnd a).traffic hand = s'.traffic hand := by
            intro s'
            unfold noteEnd
            split <;> exact ⟨rfl, rfl⟩
          refine ⟨(noted _).1, follows_to (struck.trans evicted) ?_⟩
          exact (Hub.traffic_hand_idle _ i .nothing id rfl).trans (noted _).2

theorem startTask_follows (s next : Stack) (i : Nat) (t : Task) (taken : s.next? i = some (t, next)) :
    (next.startTask i t).2.2.link = s.link ∧
      Follows s.hub (s.traffic hand) ((next.startTask i t).2.2.traffic ((i, (next.startTask i t).2.1) :: hand)) := by
  obtain ⟨same, link, l, place⟩ := next_outlook s next i t taken
  rw [← link]
  cases t with
  | event e =>
      rw [next_traffic s next i _ id taken]
      exact startEvent_follows s.hub next i e l same place
  | job j =>
      rw [next_traffic s next i _ id taken]
      exact startJob_follows s.hub next i j same
  | unload app =>
      rw [next_traffic s next i _ id taken, Task.errands_none i _ _ rfl]
      exact startUnload_follows s.hub next i app
  | stop =>
      rw [next_traffic s next i _ id taken, Task.errands_none i _ _ rfl]
      exact ⟨rfl, follows_to .refl (Hub.traffic_hand_idle _ i .nothing id rfl)⟩
  | load badge program =>
      obtain ⟨same, here, within⟩ := @next_load hand s next i badge program taken
      rw [same]
      exact startLoad_follows s.hub next i badge program _ here within

theorem install_traffic (s : Stack) (i : Nat) (a : Loaded) :
    (s.modifyLoop i (·.install a)).traffic hand =
        { s.traffic hand with known := ((s.modifyLoop i (·.install a)).traffic hand).known } ∧
      ∀ j b, ((s.modifyLoop i (·.install a)).traffic hand).known j b → (s.traffic hand).known j b ∨ j = i ∧ b = a.badge := by
  rcases s.hub.modify_cases i (·.install a) with ⟨-, same⟩ | ⟨l, place, change⟩
  · have idle : s.modifyLoop i (·.install a) = s := by simp only [modifyLoop, onHub, same]
    rw [idle]
    exact ⟨rfl, fun j b known => .inl known⟩
  · simp only [traffic, modifyLoop, onHub, change]
    constructor
    · simp only [Hub.traffic, Hub.desks_set s.hub i l (l.install a) place rfl,
        gather_set_same RunLoop.errands s.hub.loops i l (l.install a) place rfl]
    · rintro j b (held | knows)
      · exact .inl (.inl held)
      · rcases Hub.knows_set_within s.hub i j l (l.install a) b place knows with
          ⟨rfl, listed | ⟨x, member, rfl⟩ | waits⟩ | there
        · rcases List.mem_cons.mp listed with rfl | listed
          · exact .inr ⟨rfl, rfl⟩
          · exact .inl (.inr ⟨l, place, .inl listed⟩)
        · rcases RunLoop.mem_placeApp a x l.apps member with rfl | member
          · exact .inr ⟨rfl, rfl⟩
          · exact .inl (.inr ⟨l, place, .inr (.inl ⟨x, member, rfl⟩)⟩)
        · exact .inl (.inr ⟨l, place, .inr (.inr waits)⟩)
        · exact .inl (.inr there)

theorem finishTask_follows (past : Hub) (s : Stack) (place i : Nat) (rest : Epilogue)
    (here : hand[place]? = some (i, rest)) :
    (s.finishTask i rest).link = s.link ∧
      Follows past (s.traffic hand) ((s.finishTask i rest).traffic (hand.eraseIdx place)) := by
  have errands := hand_errands_erase i place rest here
  have held : s.traffic hand = { s.traffic (hand.eraseIdx place) with
      errands := rest.errands i + (s.traffic (hand.eraseIdx place)).errands
      known := (s.traffic hand).known } := by
    simp only [traffic, Hub.traffic, errands, add_assoc]
  have within : ∀ j b, (s.traffic (hand.eraseIdx place)).known j b → (s.traffic hand).known j b := by
    rintro j b (⟨program, member⟩ | knows)
    · exact .inl ⟨program, List.mem_of_mem_eraseIdx member⟩
    · exact .inr knows
  have narrowed : Follows past (s.traffic hand) { s.traffic (hand.eraseIdx place) with
      errands := rest.errands i + (s.traffic (hand.eraseIdx place)).errands } := by
    rw [held]
    exact .single (.narrow _ within)
  have idle : rest.errand? = none → Follows past (s.traffic hand) (s.traffic (hand.eraseIdx place)) := by
    intro none
    simpa [Epilogue.errands, none] using narrowed
  cases rest with
  | nothing => exact ⟨rfl, idle rfl⟩
  | countJob =>
      exact ⟨rfl, follows_to (idle rfl) (modify_traffic s i _ RunLoop.quiet_countJob)⟩
  | install badge program =>
      simp only [finishTask]
      split
      · obtain ⟨same, knows⟩ := @install_traffic (hand.eraseIdx place) s i ⟨badge, program.afterStart⟩
        have errandless : (Epilogue.install badge program).errands i + (s.traffic (hand.eraseIdx place)).errands =
            (s.traffic (hand.eraseIdx place)).errands := by
          simp [Epilogue.errands, Epilogue.errand?]
        rw [call_traffic, held, errandless, same]
        refine ⟨rfl, .single (.narrow _ fun j b known => ?_)⟩
        rcases knows j b known with before | ⟨rfl, rfl⟩
        · exact within j b before
        · exact .inl ⟨program, List.mem_of_getElem? here⟩
      · exact ⟨rfl, idle rfl⟩
  | consume e =>
      refine ⟨rfl, narrowed.trans ?_⟩
      have counted := @modify_traffic (hand.eraseIdx place) s i _ RunLoop.quiet_countDelivered
      rw [← counted]
      exact Hub.consume_follows past (s.modifyLoop i RunLoop.countDelivered).hub i e
  | giveBack k =>
      refine ⟨rfl, narrowed.trans ?_⟩
      have work : (Epilogue.giveBack k).errands i + (s.traffic (hand.eraseIdx place)).errands =
          (i, .giveBack k) ::ₘ (s.traffic (hand.eraseIdx place)).errands := rfl
      rw [work]
      refine follows_to (.single (.finish i k (.giveBack k) _ rfl (.inl rfl))) ?_
      simp only [finishTask]
      rw [modify_traffic _ i _ RunLoop.quiet_countJob]
      refine (Hub.traffic_reclaim _ k).trans ?_
      rw [Hub.traffic_count _ RelayTally.countInvoked fun _ => rfl]
      rfl

end Stack

end HubRelay
