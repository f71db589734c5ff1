import HubRelay.Session

/-! Everything that can happen to a stack, in any order: calls by user code and by outside threads, the
transport thread, and the loops, each of which begins and ends its tasks while the others go on. User code
may make any call while a task is under way, whatever its script says. -/

set_option autoImplicit false

namespace HubRelay

structure Scene where
  stack : Stack
  -- What is still to be done for each task under way, with its loop.
  hand : List (Nat × Epilogue) := []

inductive Move where
  | act (a : Action)
  | haul
  | turn (thread : Thread)
  | note (n : Note)
  -- The notes made so far are handed over.
  | tell
  | occupy (loop : Nat)
  | take (loop : Nat)
  | finish (place : Nat)
  | shut (loop : Nat)
  -- A loop that is shut ends one of its nanoapps. The order among them is open.
  | quit (loop : Nat) (place : Nat)
  | clearRoster (loop : Nat)
  -- A loop that is shut drops its next task, unless that is a job.
  | drop (loop : Nat)
  | detach (loop : Nat)
  | dropRelay

/-- Leaves completions to the link and retries to their own job. The hook that gives a slot back is the
relay's own: no event that user code posts bears it. -/
def Action.Lawful : Action → Prop
  | .complete _ | .retry _ => False
  | .post _ e => ∀ k n, e.hook ≠ some (.reclaim k n)
  | _ => True

def Move.Lawful : Move → Prop
  | .act a => a.Lawful
  | _ => True

namespace Stack

def isShut (i : Nat) (s : Stack) : Bool := ((s.loop? i).map (·.stopped)).getD false

def dropTask (i : Nat) (s : Stack) : Stack :=
  match s.next? i with
  | none | some (.job _, _) => s
  | some (.event e, s) => s.dropEvent i e
  | some (_, s) => s

theorem quit_cases (i place : Nat) (s : Stack) : ∃ journal calls,
    (s.quit i place).2 = (s.modifyLoop i (·.dismiss place)).onHub fun h => { h with journal := journal, calls := calls } := by
  unfold quit
  split
  · exact ⟨_, _, rfl⟩
  · unfold noteEnd
    split <;> exact ⟨_, _, rfl⟩

theorem ifLoop_keeps (P : Stack → Prop) (i : Nat) (f : RunLoop → Reply × Stack) (s : Stack) (held : P s)
    (each : ∀ l, s.loop? i = some l → P (f l).2) : P (s.ifLoop i f).2 := by
  unfold ifLoop
  split
  · exact held
  · next l place => exact each l place

theorem ifRelay_keeps (P : Stack → Prop) (f : Stack → Reply × Stack) (s : Stack) (held : P s) (each : P (f s).2) :
    P (s.ifRelay f).2 := by
  unfold ifRelay
  split
  · exact held
  · exact each

theorem ifHandle_keeps (P : Stack → Prop) (r : HandleRef) (f : Handle → Stack → Reply × Stack) (s : Stack) (held : P s)
    (each : ∀ k, P (f k s).2) : P (s.ifHandle r f).2 := by
  refine ifRelay_keeps P _ s held ?_
  split
  · exact held
  · exact each _

end Stack

namespace Scene

def take (i : Nat) (c : Scene) : Scene :=
  match c.stack.next? i with
  | none => c
  | some (t, s) =>
      let (_, rest, s) := s.startTask i t
      ⟨s, (i, rest) :: c.hand⟩

def finish (place : Nat) (c : Scene) : Scene :=
  match c.hand[place]? with
  | none => c
  | some (i, rest) => ⟨c.stack.finishTask i rest, c.hand.eraseIdx place⟩

def onStack (f : Stack → Stack) (c : Scene) : Scene := { c with stack := f c.stack }

def move (m : Move) (c : Scene) : Scene :=
  match m with
  | .act a => c.onStack fun s => (s.act a).2
  | .haul => c.onStack (·.haul)
  | .turn thread => c.onStack (·.asThread thread)
  | .note n => c.onStack (·.note n)
  | .tell => c.onStack (·.onHub fun h => { h with journal := #[] })
  | .occupy i => c.onStack (·.occupy i)
  | .take i => c.take i
  | .finish place => c.finish place
  | .shut i => c.onStack (·.shut i)
  | .quit i place => c.onStack fun s => (s.quit i place).2
  | .clearRoster i => c.onStack (·.clearRoster i)
  | .drop i => if c.stack.isShut i then c.onStack (·.dropTask i) else c
  | .detach i => if c.stack.isShut i then c.onStack (·.detach i) else c
  | .dropRelay => c.onStack (·.onHub fun h => h.dropRelay.2)

def run (moves : List Move) (c : Scene) : Scene := moves.foldl (fun c m => c.move m) c

theorem run_append (moves more : List Move) (c : Scene) : c.run (moves ++ more) = (c.run moves).run more :=
  List.foldl_append

end Scene

structure Scene.Opens (link : LinkSettings) (c : Scene) : Prop where
  built : ∃ b : Blueprint, b.link = some (.uplink { settings := link }) ∧ b.build = .ok c.stack
  idle : c.hand = []

namespace Scene

def small : Scene where
  stack :=
    { hub :=
        { loops := [{ settings := {} }], registered := 1,
          relay := some { settings := { outstanding := 4 }, pool := .ofCapacity 4 } }
      link := .uplink { settings := { duplicates := true } } }

theorem small_opens : small.Opens { duplicates := true } :=
  ⟨⟨⟨{ outstanding := 4 }, some (.uplink { settings := { duplicates := true } }), some {}, [{}], 1⟩, rfl, rfl⟩, rfl⟩

def busy : List Move :=
  [.act (.load 0 1 .none .plain), .take 0, .finish 0, .act (.grab 0 1 (some "a")),
    .act (.send ⟨"a", [7], 1, ⟨1⟩, .none, some ⟨"f", []⟩, false, none⟩),
    .act (.send ⟨"a", [8], 1, ⟨1⟩, .none, none, false, none⟩), .act (.uplink (.pump 1)),
    .act (.deliver ⟨1, 1, ⟨1⟩, [9]⟩ true), .act (.deliver ⟨2, 1, ⟨1⟩, [5]⟩ true)]

def calmed : List Move := busy ++ [.take 0, .finish 0, .take 0, .finish 0]

theorem calmed_lawful : (∀ m ∈ calmed, m.Lawful) ∧ .dropRelay ∉ calmed := by
  simp [calmed, busy, Move.Lawful, Action.Lawful]

end Scene

end HubRelay
