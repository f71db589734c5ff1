import HubRelay.Proofs.Relay.Incidents

/-! Which thread acts, and which threads drive the loops. -/

set_option autoImplicit false

namespace HubRelay

structure Rota where
  acting : Thread := mainThread
  driver : Nat → Option Thread := fun _ => none

namespace Rota

def next (x : Incident) (rota : Rota) : Rota :=
  match x with
  | .move (.turn thread) => { rota with acting := thread }
  | .move (.occupy i) => { rota with driver := fun j => if i = j then some rota.acting else rota.driver j }
  | _ => rota

def after (incidents : List Incident) (rota : Rota) : Rota := incidents.foldl (fun rota x => rota.next x) rota

theorem after_append (incidents more : List Incident) (rota : Rota) :
    rota.after (incidents ++ more) = (rota.after incidents).after more :=
  List.foldl_append

-- A loop takes up tasks only on the thread that drives it.
def Attended (incidents : List Incident) (rota : Rota) : Prop :=
  match incidents with
  | [] => True
  | x :: rest => (∀ i, x = .move (.take i) → rota.driver i = some rota.acting) ∧ (rota.next x).Attended rest

theorem attended_append (incidents more : List Incident) (rota : Rota) :
    rota.Attended (incidents ++ more) ↔ rota.Attended incidents ∧ (rota.after incidents).Attended more := by
  induction incidents generalizing rota with
  | nil => exact ⟨fun attended => ⟨trivial, attended⟩, And.right⟩
  | cons x rest ih =>
      simp only [List.cons_append, Attended, ih (rota.next x), and_assoc]
      rfl

def Attends (place : Option Nat) (m : Move) : Prop :=
  match m with
  | .turn _ | .occupy _ => False
  | .take i => place = some i
  | _ => True

theorem attended_moves (place : Option Nat) (moves : List Move) (rota : Rota) (attends : ∀ m ∈ moves, Attends place m)
    (drives : ∀ i, place = some i → rota.driver i = some rota.acting) : rota.Attended (moves.map .move) := by
  induction moves generalizing rota with
  | nil => trivial
  | cons m rest ih =>
      obtain ⟨first, later⟩ := List.forall_mem_cons.mp attends
      have same : rota.next (.move m) = rota := by
        cases m with
        | turn | occupy => exact first.elim
        | _ => rfl
      refine ⟨fun i taken => ?_, ?_⟩
      · cases taken
        exact drives i first
      · rw [same]
        exact ih rota later drives

end Rota

end HubRelay
