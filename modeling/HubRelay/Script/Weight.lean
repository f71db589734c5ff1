import HubRelay.Script

/-! An upper bound on the tasks that a script can still queue, counted over everything it carries.
A drive of a loop spends at least one of it on each task. -/

set_option autoImplicit false

namespace HubRelay

def total (weights : List Nat) : Nat := weights.foldr (· + ·) 0

@[simp] theorem total_nil : total [] = 0 := rfl

@[simp] theorem total_cons (n : Nat) (rest : List Nat) : total (n :: rest) = n + total rest := rfl

@[simp] theorem total_append (weights more : List Nat) : total (weights ++ more) = total weights + total more := by
  induction weights with
  | nil => simp
  | cons n rest ih => rw [List.cons_append, total_cons, total_cons, ih, Nat.add_assoc]

mutual

def Action.weight : Action → Nat
  | .load _ _ _ program => program.weight + 1
  | .loadMany _ _ count => count
  | .unload _ _ => 1
  | .post _ _ => 1
  | .defer _ _ script => Script.weight script + 1
  | .stop _ _ => 1
  | .send dispatch => dispatch.weight
  | .retry _ => 1
  | .deliver _ _ => 2
  | .find _ _ | .grab _ _ _ | .enrol _ _ _ _ | .complete _ | .resetClaim | .shutdown | .flush
  | .suspend | .wake | .uplink _ | .puppet _ | .malformed _ => 0

def Script.weight : List Action → Nat
  | [] => 0
  | a :: rest => a.weight + Script.weight rest

def Script.weights : List (List Action) → Nat
  | [] => 0
  | script :: rest => Script.weight script + Script.weights rest

def Program.weight : Program Action → Nat
  | .scripted _ onStart onEvent onEnd =>
      Script.weight onStart + Script.weights onEvent + Script.weight onEnd
  | .plain => 0
  | .inert => 0

def FreeCallback.weight : FreeCallback Action → Nat
  | ⟨_, script⟩ => Script.weight script + 1

def FreeCallback.weight? : Option (FreeCallback Action) → Nat
  | none => 0
  | some callback => callback.weight

def Dispatch.weight : Dispatch Action → Nat
  | ⟨_, _, _, _, _, free, _, _⟩ => FreeCallback.weight? free

end

end HubRelay
