import HubRelay.Proofs.Loop.Roster

/-! Instance ids come round once a loop has given out all of them, whether or not its nanoapps still bear them. A
nanoapp that is loaded under the id of another one takes its place, and both stay on the roster. -/

set_option autoImplicit false

namespace HubRelay

namespace RunLoop

structure Admits (l : RunLoop) : Prop where
  stopped : l.stopped = false
  attached : l.attached = true

theorem enqueue_load (badge : Badge) (program : Program Action) (l : RunLoop) (admits : l.Admits) :
    l.enqueue (.load badge program) = .ok { l with queue := l.queue.push (.load badge program) } := by
  simp [enqueue, Task.isEvent, admits.stopped, admits.attached]

def afterLoad (badge : Badge) (program : Program Action) (l : RunLoop) : RunLoop :=
  if (l.badge? badge.app).isNone && program.starts then l.install ⟨badge, program.afterStart⟩ else l

theorem loaded_install (a : Loaded) (l : RunLoop) : (l.install a).loaded? a.badge.inst = some a := by
  have placed : ∀ apps : List Loaded, (placeApp a apps).find? (·.badge.inst == a.badge.inst) = some a := by
    intro apps
    induction apps with
    | nil => simp [placeApp]
    | cons b rest ih =>
        simp only [placeApp]
        split
        · simp
        · split
          · simp
          · next apart =>
              have other : (b.badge.inst == a.badge.inst) = false :=
                beq_eq_false_iff_ne.mpr fun same => apart (beq_iff_eq.mpr same.symm)
              simp only [List.find?_cons, other, ih]
  exact placed l.apps

theorem install_replaces (badge : Badge) (program : Program Action) (other : Badge) (l : RunLoop)
    (known : l.badge? other.app = some other) (same : badge.inst = other.inst) (unknown : l.badge? badge.app = none)
    (starts : program.starts = true) :
    (l.afterLoad badge program).find? badge.app = some other.inst ∧
      (l.afterLoad badge program).find? other.app = some other.inst ∧
      (l.afterLoad badge program).loaded? other.inst = some ⟨badge, program.afterStart⟩ := by
  have apart : badge.app ≠ other.app := by
    intro equal
    rw [equal, known] at unknown
    cases unknown
  have installed : l.afterLoad badge program = l.install ⟨badge, program.afterStart⟩ := by
    simp [afterLoad, unknown, starts]
  rw [installed, ← same]
  refine ⟨?_, ?_, l.loaded_install ⟨badge, program.afterStart⟩⟩
  · simp [find?, badge?, install]
  · have kept : (l.install ⟨badge, program.afterStart⟩).badge? other.app = some other := by
      rw [← known]
      simp [badge?, install, apart]
    rw [find?, kept, same]
    rfl

end RunLoop

namespace Hub

theorem requestLoad_admitted (h : Hub) (i : Nat) (app : AppId) (permissions : Permissions) (program : Program Action)
    (l : RunLoop) (place : h.loops[i]? = some l) (admits : l.Admits) :
    (h.requestLoad i app permissions program).2.loops[i]? =
      some { l.issue.2 with queue := l.queue.push (.load (h.badgeFor app permissions l) program) } := by
  have bound := (List.getElem?_eq_some_iff.mp place).1
  have here : (h.issued i app permissions l).loops[i]? = some l.issue.2 := List.getElem?_set_self bound
  have taken := l.issue.2.enqueue_load (h.badgeFor app permissions l) program ⟨admits.stopped, admits.attached⟩
  rw [requestLoad_issued h i app permissions program l place]
  simp only [enqueue, here, taken]
  exact List.getElem?_set_self (List.getElem?_eq_some_iff.mp here).1

theorem requestLoads_admitted (h : Hub) (i count : Nat) (app : AppId) (last : Reply) (l : RunLoop) (spent : Nat)
    (place : h.loops[i]? = some l) (admits : l.Admits) (next : l.nextInst = UInt16.ofNat (spent + 1))
    (few : spent + count ≤ instanceLimit) :
    ∃ (queue : Fifo Task) (badges : List Badge),
      (h.requestLoads i count app last).2.loops[i]? =
        some { l with queue := queue, nextInst := UInt16.ofNat (spent + count + 1) } ∧
      queue.toList = l.queue.toList ++ badges.map (.load · .inert) ∧ badges.length = count := by
  induction count generalizing h app last l spent with
  | zero =>
      refine ⟨l.queue, [], ?_, by simp, rfl⟩
      rw [Nat.add_zero, ← next]
      exact place
  | succ count ih =>
      let badge := h.badgeFor app .none l
      have issued : l.issue.2.nextInst = UInt16.ofNat (spent + 1 + 1) :=
        (Traffic.issue_next badge l.nextInst spent (by omega) rfl next).2
      have first := h.requestLoad_admitted i app .none .inert l place admits
      obtain ⟨queue, badges, after, waits, many⟩ := ih (h.requestLoad i app .none .inert).2 (app + 1)
        (.loaded (h.requestLoad i app .none .inert).1) _ (spent + 1) first ⟨admits.stopped, admits.attached⟩ issued (by omega)
      refine ⟨queue, badge :: badges, ?_, ?_, by rw [List.length_cons, many]⟩
      · have total : spent + (count + 1) + 1 = spent + 1 + count + 1 := by omega
        rw [total]
        exact after
      · rw [waits, Fifo.toList_push, List.append_assoc]
        rfl

end Hub

theorem Stack.loop_load (i : Nat) (badge : Badge) (program : Program Action) (s : Stack) (l : RunLoop)
    (place : s.loop? i = some l) :
    ((s.startLoad i badge program).2.2.finishTask i (s.startLoad i badge program).2.1).loop? i =
      some (l.afterLoad badge program) := by
  have noted : (s.noteStart i badge program).loop? i = some l := by
    unfold noteStart
    split <;> exact place
  simp only [startLoad, place, Option.bind_some, RunLoop.afterLoad]
  cases l.badge? badge.app with
  | some other => exact place
  | none =>
      cases starts : program.starts with
      | false =>
          simp only [finishTask, starts]
          exact noted
      | true =>
          have here : (s.noteStart i badge program).hub.loops[i]? = some l := noted
          simp [finishTask, starts, loop?, modifyLoop, onHub, Hub.modifyLoop, Hub.call, here]

namespace Scene

variable (i : Nat)

theorem run_load (c : Scene) (l : RunLoop) (badge : Badge) (program : Program Action) (rest : List Task)
    (place : c.stack.loop? i = some l) (idle : c.hand = []) (waits : l.queue.toList = .load badge program :: rest) :
    Stage.ready.after i [.take i, .finish 0] c = some .ready ∧ (c.run [.take i, .finish 0]).hand = [] ∧
      ∃ queue : Fifo Task, queue.toList = rest ∧
        (c.run [.take i, .finish 0]).stack.loop? i = some ({ l with queue := queue }.afterLoad badge program) := by
  obtain ⟨queue, popped, rfl⟩ : ∃ queue, l.queue.pop? = some (.load badge program, queue) ∧ queue.toList = rest := by
    cases popped : l.queue.pop? with
    | none =>
        rw [Fifo.pop?_eq_none.mp popped] at waits
        cases waits
    | some found =>
        obtain ⟨t, queue⟩ := found
        rw [Fifo.toList_of_pop? popped] at waits
        cases waits
        exact ⟨queue, rfl, rfl⟩
  let next := c.stack.onHub fun h => { h with loops := h.loops.set i { l with queue := queue } }
  have taken : c.stack.next? i = some (.load badge program, next) := by
    simp only [Stack.next?, place, Option.bind_some, RunLoop.next?, popped, Option.map_some, next]
  have here : next.loop? i = some { l with queue := queue } :=
    List.getElem?_set_self (List.getElem?_eq_some_iff.mp place).1
  have moved : c.run [.take i, .finish 0] =
      ⟨(next.startLoad i badge program).2.2.finishTask i (next.startLoad i badge program).2.1, []⟩ := by
    simp [run, move, take, taken, finish, idle, Stack.startTask]
  refine ⟨?_, by rw [moved], queue, rfl, ?_⟩
  · simp [Stage.after, Stage.step, Stage.begin, Stage.conclude, queued, place, waits, move, take, taken]
  · rw [moved]
    exact next.loop_load i badge program _ here

theorem run_refused (c : Scene) (l : RunLoop) (badges : List Badge) (place : c.stack.loop? i = some l) (idle : c.hand = [])
    (waits : l.queue.toList = badges.map (.load · .inert)) :
    let moves := (List.replicate badges.length [Move.take i, .finish 0]).flatten
    Stage.ready.after i moves c = some .ready ∧ (c.run moves).hand = [] ∧
      ∃ queue : Fifo Task, queue.toList = [] ∧ (c.run moves).stack.loop? i = some { l with queue := queue } := by
  induction badges generalizing c l with
  | nil => exact ⟨rfl, idle, l.queue, waits, place⟩
  | cons badge badges ih =>
      obtain ⟨ready, idle', queue, left, place'⟩ := run_load i c l badge .inert _ place idle waits
      have same : ({ l with queue := queue } : RunLoop).afterLoad badge .inert = { l with queue := queue } := by
        simp [RunLoop.afterLoad, Program.starts]
      rw [same] at place'
      obtain ⟨ready', idle'', final⟩ := ih (c.run [.take i, .finish 0]) _ place' idle' left
      refine ⟨?_, idle'', final⟩
      exact (Stage.after_append i [.take i, .finish 0] _ c .ready).trans (by rw [ready]; exact ready')

def refusals (app : AppId) (count : Nat) : List Move :=
  .act (.loadMany i app count) :: (List.replicate count [Move.take i, .finish 0]).flatten

theorem run_refusals (c : Scene) (l : RunLoop) (spent count : Nat) (app : AppId) (place : c.stack.loop? i = some l)
    (admits : l.Admits) (idle : c.hand = []) (empty : l.queue.toList = []) (next : l.nextInst = UInt16.ofNat (spent + 1))
    (few : spent + count ≤ instanceLimit) :
    Stage.ready.after i (refusals i app count) c = some .ready ∧ (c.run (refusals i app count)).hand = [] ∧
      ∃ queue : Fifo Task, queue.toList = [] ∧ (c.run (refusals i app count)).stack.loop? i =
        some { l with queue := queue, nextInst := UInt16.ofNat (spent + count + 1) } := by
  have here : c.stack.hub.loops[i]? = some l := place
  obtain ⟨queue, badges, place', waits, rfl⟩ :=
    c.stack.hub.requestLoads_admitted i count app .done l spent here admits next few
  rw [empty, List.nil_append] at waits
  have asked : (c.move (.act (.loadMany i app badges.length))).stack.loop? i =
      some { l with queue := queue, nextInst := UInt16.ofNat (spent + badges.length + 1) } := by
    simp only [move, onStack, Stack.act, Stack.ifLoop, here]
    exact place'
  exact run_refused i (c.move (.act (.loadMany i app badges.length))) _ badges asked idle waits

theorem run_loaded (c : Scene) (l : RunLoop) (app : AppId) (permissions : Permissions) (program : Program Action)
    (place : c.stack.loop? i = some l) (admits : l.Admits) (idle : c.hand = []) (empty : l.queue.toList = []) :
    let moves := [Move.act (.load i app permissions program), .take i, .finish 0]
    Stage.ready.after i moves c = some .ready ∧ (c.run moves).hand = [] ∧
      ∃ (badge : Badge) (queue : Fifo Task) (l' : RunLoop), badge.app = app ∧ badge.inst = l.issue.1 ∧ queue.toList = [] ∧
        l' = { l.issue.2 with queue := queue } ∧ (c.run moves).stack.loop? i = some (l'.afterLoad badge program) := by
  have here : c.stack.hub.loops[i]? = some l := place
  have asked : (c.move (.act (.load i app permissions program))).stack.loop? i = some { l.issue.2 with
      queue := l.queue.push (.load (c.stack.hub.badgeFor app permissions l) program) } := by
    simp only [move, onStack, Stack.act, Stack.ifLoop, here]
    exact c.stack.hub.requestLoad_admitted i app permissions program l here admits
  obtain ⟨ready, idle', queue, left, final⟩ := run_load i (c.move (.act (.load i app permissions program))) _
    (c.stack.hub.badgeFor app permissions l) program [] asked idle (by rw [Fifo.toList_push, empty]; rfl)
  exact ⟨ready, idle', _, queue, _, rfl, rfl, left, rfl, final⟩

/-- Whatever app is loaded next once the ids are spent gets the id of the first one, and its place. -/
theorem spent_ids_replace (c : Scene) (l : RunLoop) (first : Badge) (spent count : Nat) (refused app : AppId)
    (permissions : Permissions) (program : Program Action) (place : c.stack.loop? i = some l) (admits : l.Admits)
    (idle : c.hand = []) (empty : l.queue.toList = []) (next : l.nextInst = UInt16.ofNat (spent + 1))
    (all : spent + count = instanceLimit) (known : l.badge? first.app = some first) (one : first.inst = 1)
    (unknown : l.badge? app = none) (starts : program.starts = true) :
    let moves := refusals i refused count ++ [.act (.load i app permissions program), .take i, .finish 0]
    Stage.ready.after i moves c = some .ready ∧ ∃ l', (c.run moves).stack.loop? i = some l' ∧
      l'.find? app = some first.inst ∧ l'.find? first.app = some first.inst ∧
      ∃ a, l'.loaded? first.inst = some a ∧ a.badge.app = app := by
  obtain ⟨ready, idle', queue, left, spun⟩ := run_refusals i c l spent count refused place admits idle empty next all.le
  rw [all] at spun
  obtain ⟨ready', -, badge, queue', l', rfl, inst, -, next', loaded⟩ :=
    run_loaded i (c.run (refusals i refused count)) _ app permissions program spun ⟨admits.stopped, admits.attached⟩ idle' left
  have same : badge.inst = first.inst := by
    rw [inst, one]
    rfl
  have roster : l'.roster = l.roster := by rw [next']; rfl
  have known' : l'.badge? first.app = some first := by rwa [RunLoop.badge?, roster]
  have unknown' : l'.badge? badge.app = none := by rwa [RunLoop.badge?, roster]
  obtain ⟨named, kept, replaced⟩ := l'.install_replaces badge program first known' same unknown' starts
  refine ⟨?_, _, ?_, named, kept, _, replaced, rfl⟩
  · rw [Stage.after_append, ready]
    exact ready'
  · rw [run_append]
    exact loaded

def wrapping : List Move :=
  [.act (.load 0 1 .none .plain), .take 0, .finish 0] ++
    (refusals 0 1000 65534 ++ [.act (.load 0 2 .none .plain), .take 0, .finish 0])

theorem wrapped_id_replaces :
    Stage.ready.after 0 wrapping small = some .ready ∧ ∃ l, (small.run wrapping).stack.loop? 0 = some l ∧
      l.find? 1 = some 1 ∧ l.find? 2 = some 1 ∧ ∃ a, l.loaded? 1 = some a ∧ a.badge.app = 2 := by
  obtain ⟨ready, idle, badge, queue, -, app, inst, empty, rfl, loaded⟩ :=
    run_loaded 0 small _ 1 .none .plain rfl ⟨rfl, rfl⟩ rfl rfl
  have known : RunLoop.badge? badge.app { settings := {}, queue := queue, roster := [badge] } = some badge := by
    simp [RunLoop.badge?]
  have unknown : RunLoop.badge? 2 { settings := {}, queue := queue, roster := [badge] } = none := by
    simp [RunLoop.badge?, app]
  obtain ⟨ready', l, place, second, first, a, replaced, other⟩ := spent_ids_replace 0 _ _ badge 1 65534 1000 2 .none .plain
    loaded ⟨rfl, rfl⟩ idle empty rfl rfl known inst unknown rfl
  rw [app, inst] at first
  rw [inst] at second replaced
  refine ⟨?_, l, ?_, first, second, a, replaced, other⟩
  · rw [wrapping, Stage.after_append, ready, Option.bind_some]
    exact ready'
  · rw [wrapping, run_append]
    exact place

end Scene

end HubRelay
