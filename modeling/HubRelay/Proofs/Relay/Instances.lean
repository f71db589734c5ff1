import HubRelay.Proofs.Relay.Moments

/-! The instance ids of a loop tell its nanoapps apart, as long as it has not run out of them. -/

set_option autoImplicit false

namespace HubRelay

def requests (i : Nat) (history : List Happening) : List Badge :=
  history.filterMap fun x =>
    match x with
    | .requested j badge => if j = i then some badge else none
    | _ => none

def instanceLimit : Nat := 65535

theorem mem_requests (i : Nat) (badge : Badge) (history : List Happening) :
    badge ∈ requests i history ↔ .requested i badge ∈ history := by
  unfold requests
  rw [List.mem_filterMap]
  constructor
  · rintro ⟨x, member, found⟩
    cases x with
    | requested j b =>
        simp only at found
        split at found
        · next same =>
            cases found
            cases same
            exact member
        · cases found
    | _ => cases found
  · intro member
    exact ⟨_, member, by simp⟩

theorem requests_none (i : Nat) (x : Happening) (history : List Happening)
    (other : ∀ badge, x ≠ .requested i badge) : requests i (x :: history) = requests i history := by
  refine List.filterMap_cons_none ?_
  cases x with
  | requested j badge =>
      simp only
      split
      · next same => exact absurd (same ▸ rfl) (other badge)
      · rfl
  | _ => rfl

theorem requests_cons (i : Nat) (badge : Badge) (history : List Happening) :
    requests i (.requested i badge :: history) = badge :: requests i history :=
  List.filterMap_cons_some (by simp)

namespace Traffic

def Requested (t : Traffic) : Prop := ∀ i badge, t.known i badge → .requested i badge ∈ t.history

theorem change_requested (past : Hub) (t t' : Traffic) (change : Change past t t') (requested : t.Requested) :
    t'.Requested := by
  have within := history_within past t t' change
  cases change with
  | narrow known narrower => exact fun i badge knows => requested i badge (narrower i badge knows)
  | request i d badge known place issued wider =>
      intro j b knows
      rcases wider j b knows with before | ⟨rfl, rfl⟩
      · exact List.mem_cons_of_mem _ (requested j b before)
      · exact List.mem_cons_self
  | _ => exact fun i badge knows => within _ (requested i badge knows)

def Issued (t : Traffic) : Prop :=
  ∀ i, (requests i t.history).length ≤ instanceLimit →
    (∀ badge ∈ requests i t.history, badge.inst.toNat ≤ (requests i t.history).length) ∧
      ((requests i t.history).map (·.inst)).Nodup ∧
      ∀ d, t.desks[i]? = some d → d.nextInst = UInt16.ofNat ((requests i t.history).length + 1)

theorem issue_next (badge : Badge) (next : InstanceId) (count : Nat) (few : count + 1 ≤ instanceLimit)
    (issued : badge.inst = if next == systemInstance then 1 else next) (before : next = UInt16.ofNat (count + 1)) :
    badge.inst.toNat = count + 1 ∧ badge.inst + 1 = UInt16.ofNat (count + 1 + 1) := by
  have value : next.toNat = count + 1 := by
    rw [before]
    exact UInt16.toNat_ofNat_of_lt (Nat.lt_succ_of_le few)
  have some : (next == systemInstance) = false := by
    refine beq_eq_false_iff_ne.mpr fun zero => ?_
    rw [zero] at value
    exact absurd value (Nat.succ_ne_zero count).symm
  rw [some] at issued
  have given : badge.inst = next := issued
  rw [given]
  refine ⟨value, ?_⟩
  rw [before, UInt16.ofNat_add (count + 1) 1]
  rfl

end Traffic

end HubRelay
