import Mathlib.Algebra.Order.Group.Multiset
import Mathlib.Data.Multiset.Count

/-! What the members of a list contribute between them, each according to its place. -/

set_option autoImplicit false

namespace HubRelay

variable {α β : Type}

def gather (f : Nat → α → Multiset β) : List α → Multiset β
  | [] => 0
  | a :: rest => f 0 a + gather (fun i => f (i + 1)) rest

theorem mem_gather (f : Nat → α → Multiset β) (as : List α) (b : β) :
    b ∈ gather f as ↔ ∃ i a, as[i]? = some a ∧ b ∈ f i a := by
  induction as generalizing f with
  | nil => simp [gather]
  | cons a rest ih =>
      rw [gather, Multiset.mem_add, ih]
      constructor
      · rintro (here | ⟨i, x, place, there⟩)
        · exact ⟨0, a, rfl, here⟩
        · exact ⟨i + 1, x, place, there⟩
      · rintro ⟨i, x, place, member⟩
        cases i with
        | zero =>
            cases place
            exact .inl member
        | succ i => exact .inr ⟨i, x, place, member⟩

theorem gather_set (f : Nat → α → Multiset β) (as : List α) (i : Nat) (a next : α) (place : as[i]? = some a) :
    gather f (as.set i next) + f i a = gather f as + f i next := by
  induction as generalizing f i with
  | nil => cases place
  | cons b rest ih =>
      cases i with
      | zero =>
          cases place
          simp only [List.set_cons_zero, gather]
          ac_rfl
      | succ i =>
          have tail := ih (fun j => f (j + 1)) i place
          simp only [List.set_cons_succ, gather]
          calc f 0 b + gather (fun j => f (j + 1)) (rest.set i next) + f (i + 1) a
              = f 0 b + (gather (fun j => f (j + 1)) (rest.set i next) + f (i + 1) a) := by ac_rfl
            _ = f 0 b + (gather (fun j => f (j + 1)) rest + f (i + 1) next) := by rw [tail]
            _ = f 0 b + gather (fun j => f (j + 1)) rest + f (i + 1) next := by ac_rfl

theorem gather_set_same (f : Nat → α → Multiset β) (as : List α) (i : Nat) (a next : α) (place : as[i]? = some a)
    (same : f i next = f i a) : gather f (as.set i next) = gather f as := by
  have change := gather_set f as i a next place
  rw [same] at change
  exact add_right_cancel change

theorem gather_set_more (f : Nat → α → Multiset β) (as : List α) (i : Nat) (a next : α) (more : Multiset β)
    (place : as[i]? = some a) (gain : f i next = more + f i a) :
    gather f (as.set i next) = more + gather f as := by
  have change := gather_set f as i a next place
  rw [gain, ← add_assoc, add_comm (gather f as)] at change
  exact add_right_cancel change

theorem gather_set_less (f : Nat → α → Multiset β) (as : List α) (i : Nat) (a next : α) (less : Multiset β)
    (place : as[i]? = some a) (loss : f i a = less + f i next) :
    gather f as = less + gather f (as.set i next) := by
  have change := gather_set f as i a next place
  rw [loss, ← add_assoc, add_comm _ less] at change
  exact (add_right_cancel change).symm

theorem gather_none (f : Nat → α → Multiset β) (as : List α)
    (idle : ∀ i a, as[i]? = some a → f i a = 0) : gather f as = 0 := by
  refine Multiset.eq_zero_of_forall_notMem fun b member => ?_
  obtain ⟨i, a, place, here⟩ := (mem_gather f as b).mp member
  rw [idle i a place] at here
  exact Multiset.notMem_zero b here

theorem gather_map {γ : Type} (g : β → γ) (f : Nat → α → Multiset β) (as : List α) :
    (gather f as).map g = gather (fun i a => (f i a).map g) as := by
  induction as generalizing f with
  | nil => rfl
  | cons a rest ih => rw [gather, gather, Multiset.map_add, ih]

theorem gather_nodup (f : Nat → α → Multiset β) (as : List α) (place : β → Nat) (each : ∀ i a, (f i a).Nodup)
    (apart : ∀ i a b, b ∈ f i a → place b = i) : (gather f as).Nodup := by
  induction as generalizing f place with
  | nil => exact Multiset.nodup_zero
  | cons a rest ih =>
      have tail := ih (fun i => f (i + 1)) (fun b => place b - 1) (fun i => each (i + 1)) fun i a b member => by
        rw [apart (i + 1) a b member, Nat.add_sub_cancel]
      rw [gather, Multiset.nodup_add]
      refine ⟨each 0 a, tail, Multiset.disjoint_left.mpr fun {b} here there => ?_⟩
      obtain ⟨i, x, _, member⟩ := (mem_gather _ _ _).mp there
      have first := apart 0 a b here
      have later := apart (i + 1) x b member
      omega

theorem gather_card_pair {γ : Type} (f : Nat → α → Multiset β) (g : Nat → α → Multiset γ) (as : List α)
    (each : ∀ i a, (f i a).card + (g i a).card = 1) : (gather f as).card + (gather g as).card = as.length := by
  induction as generalizing f g with
  | nil => rfl
  | cons a rest ih =>
      have head := each 0 a
      have tail := ih (fun i => f (i + 1)) (fun i => g (i + 1)) fun i => each (i + 1)
      simp only [gather, Multiset.card_add, List.length_cons]
      omega

end HubRelay
