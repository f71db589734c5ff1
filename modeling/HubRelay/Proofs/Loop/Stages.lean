import HubRelay.Proofs.Relay.Scene

/-! How one loop is driven, seen from a run of moves: a task at a time while it is open, and after that to
its end. Everything that other loops and outside threads do goes on meanwhile. -/

set_option autoImplicit false

namespace HubRelay

inductive Stage where
  | ready
  -- A task is under way.
  | busy
  -- The loop takes no more tasks, and ends its nanoapps.
  | ending
  -- The jobs that are still queued run, everything else is dropped.
  | draining
  | sweeping
  | gone
deriving DecidableEq

namespace Stage

def begin (head : Option Task) : Stage → Option Stage
  | .ready => some (if head.isSome then .busy else .ready)
  | .draining =>
      match head with
      | some (.job _) => some .sweeping
      | _ => none
  | _ => none

def conclude : Stage → Option Stage
  | .busy => some .ready
  | .sweeping => some .draining
  | _ => none

def shut : Stage → Option Stage
  | .ready => some .ending
  | _ => none

def quit (next : Option Loaded) : Stage → Option Stage
  | .ending => if next.isSome then some .ending else none
  | _ => none

def clear (left : List Loaded) : Stage → Option Stage
  | .ending => if left.isEmpty then some .draining else none
  | _ => none

def drop (head : Option Task) : Stage → Option Stage
  | .draining =>
      match head with
      | none | some (.job _) => none
      | some _ => some .draining
  | _ => none

-- Seeing the queue empty and letting go of it count as one move. A stop that comes in between is dropped
-- with the queue, as if it came after.
def leave (head : Option Task) : Stage → Option Stage
  | .draining => if head.isNone then some .gone else none
  | _ => none

end Stage

namespace Scene

def queued (i : Nat) (c : Scene) : List Task := ((c.stack.loop? i).map (·.queue.toList)).getD []

def underway (i : Nat) (c : Scene) : List Epilogue := (c.hand.filter (·.1 == i)).map (·.2)

end Scene

namespace Stage

-- Where loop `i` gets by the move. Is `none` if its driver does not make the move there.
def step (i : Nat) (m : Move) (c : Scene) (σ : Stage) : Option Stage :=
  match m with
  | .take j => if j = i then σ.begin (c.queued i).head? else some σ
  | .finish place => if (c.hand[place]?).map (·.1) = some i then σ.conclude else some σ
  | .shut j => if j = i then σ.shut else some σ
  | .quit j place => if j = i then σ.quit (c.stack.leaving i)[place]? else some σ
  | .clearRoster j => if j = i then σ.clear (c.stack.leaving i) else some σ
  | .drop j => if j = i then σ.drop (c.queued i).head? else some σ
  | .detach j => if j = i then σ.leave (c.queued i).head? else some σ
  | _ => some σ

def after (i : Nat) : List Move → Scene → Stage → Option Stage
  | [], _, σ => some σ
  | m :: rest, c, σ => (σ.step i m c).bind (after i rest (c.move m))

theorem after_append (i : Nat) (moves more : List Move) (c : Scene) (σ : Stage) :
    σ.after i (moves ++ more) c = (σ.after i moves c).bind (after i more (c.run moves)) := by
  induction moves generalizing c σ with
  | nil => rfl
  | cons m rest ih =>
      simp only [List.cons_append, after, Option.bind_assoc]
      exact congrArg _ (funext fun σ' => ih (c.move m) σ')

end Stage

namespace Task

def isJob : Task → Bool
  | .job _ => true
  | _ => false

def event? : Task → Option Event
  | .event e => some e
  | _ => none

end Task

def Epilogue.event? : Epilogue → Option Event
  | .consume e => some e
  | _ => none

structure Log where
  accepted : List Task := []
  processed : List Task := []
  -- The events that were dropped, handled or not. That is when their hooks run.
  spent : List Event := []

namespace Scene

def hosts (i : Nat) (inst : InstanceId) (c : Scene) : Bool := ((c.stack.loop? i).bind (·.loaded? inst)).isSome

def pops (i : Nat) (m : Move) (c : Scene) : List Task :=
  match m with
  | .take j => if j = i then (c.queued i).take 1 else []
  | .drop j => if j = i ∧ c.stack.isShut i then ((c.queued i).take 1).filter (!·.isJob) else []
  | _ => []

def accepts (i : Nat) (m : Move) (c : Scene) : List Task :=
  ((c.move m).queued i).drop ((c.queued i).length - (c.pops i m).length)

def processes (i : Nat) (m : Move) (c : Scene) : List Task :=
  match m with
  | .take _ => c.pops i m
  | _ => []

def spends (i : Nat) (m : Move) (c : Scene) : List Event :=
  match m with
  | .take _ => ((c.pops i m).filterMap Task.event?).filter fun e => !c.hosts i e.target
  | .drop _ => (c.pops i m).filterMap Task.event?
  | .finish place => (c.hand[place]?.filter (·.1 == i)).toList.filterMap (·.2.event?)
  | _ => []

def observe (i : Nat) (m : Move) (c : Scene) (log : Log) : Log where
  accepted := log.accepted ++ c.accepts i m
  processed := log.processed ++ c.processes i m
  spent := log.spent ++ c.spends i m

def logs (i : Nat) : List Move → Scene → Log → Log
  | [], _, log => log
  | m :: rest, c, log => logs i rest (c.move m) (c.observe i m log)

def log (i : Nat) (moves : List Move) (c : Scene) : Log := c.logs i moves {}

theorem logs_append (i : Nat) (moves more : List Move) (c : Scene) (log : Log) :
    c.logs i (moves ++ more) log = (c.run moves).logs i more (c.logs i moves log) := by
  induction moves generalizing c log with
  | nil => rfl
  | cons m rest ih => exact ih (c.move m) (c.observe i m log)

end Scene

end HubRelay
