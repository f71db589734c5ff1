import HubRelay.Proofs.Relay.Scene

/-! Runs in which loops are let go on the way, driven or not. -/

set_option autoImplicit false

namespace HubRelay

inductive Incident where
  | move (m : Move)
  -- The loop is dropped as it stands: what is queued there never runs.
  | dropLoop (loop : Nat)

def Incident.Lawful : Incident → Prop
  | .move m => m.Lawful
  | .dropLoop _ => True

namespace Scene

def meet (x : Incident) (c : Scene) : Scene :=
  match x with
  | .move m => c.move m
  | .dropLoop i => c.onStack (·.dropLoop i)

def undergo (incidents : List Incident) (c : Scene) : Scene := incidents.foldl (fun c x => c.meet x) c

theorem undergo_append (incidents more : List Incident) (c : Scene) :
    c.undergo (incidents ++ more) = (c.undergo incidents).undergo more :=
  List.foldl_append

theorem undergo_invariant (P : Scene → Prop) (allowed : Incident → Prop) (kept : ∀ x c, allowed x → P c → P (c.meet x))
    (incidents : List Incident) (c : Scene) (lawful : ∀ x ∈ incidents, allowed x) (initial : P c) :
    P (c.undergo incidents) := by
  induction incidents generalizing c with
  | nil => exact initial
  | cons x rest ih =>
      exact ih (c.meet x) (fun y member => lawful y (List.mem_cons_of_mem x member))
        (kept x c (lawful x List.mem_cons_self) initial)

end Scene

end HubRelay
