import HubRelay.Proofs.Relay.Clearance

/-! Which of two things happened first. Messages are numbered as they are taken in, and a loop takes up its work of one
kind as it was queued. -/

set_option autoImplicit false

namespace HubRelay

-- The history has the latest first.
def Earlier (x y : Happening) (history : List Happening) : Prop := [y, x].Sublist history

theorem numbers_pair {α : Type} {l : List α} {f : α → Option Nat} {n m : Nat} (pair : [n, m].Sublist (l.filterMap f)) :
    ∃ a b, [a, b].Sublist l ∧ f a = some n ∧ f b = some m := by
  obtain ⟨items, within, named⟩ := List.sublist_filterMap_iff.mp pair
  obtain ⟨before, a, rest, split, -, first, left⟩ := List.filterMap_eq_cons_iff.mp named.symm
  obtain ⟨b, member, second⟩ := List.mem_filterMap.mp (left ▸ List.mem_singleton_self m)
  refine ⟨a, b, .trans ?_ within, first, second⟩
  rw [split]
  exact ((List.singleton_sublist.mpr member).cons_cons a).trans (List.sublist_append_right before _)

theorem earlier_told (x y : Happening) (history : List Happening) (earlier : Earlier x y history) (moves : x.moves = true)
    (moves' : y.moves = true) : Earlier x y (history.filter Happening.moves) := by
  have kept := earlier.filter Happening.moves
  rw [List.filter_cons_of_pos moves', List.filter_cons_of_pos moves] at kept
  exact kept

namespace Docket

variable {left : Nat → Prop} {loose : Prop} {d d' : Docket}

def numbers (d : Docket) : List Nat := d.told.filterMap Happening.serial?

structure Numbered (d : Docket) : Prop where
  order : d.numbers.Pairwise (· > ·)
  next : ∀ n, d.serial = some n → ∀ m ∈ d.numbers, m < n

theorem numbered_more (n : Nat) (numbered : d.Numbered) (serial : d.serial = some n) (numbers : d'.numbers = n :: d.numbers)
    (passed : d'.serial = some (n + 1)) : d'.Numbered := by
  have before := numbered.next n serial
  refine ⟨?_, fun next same m told => ?_⟩
  · rw [numbers]
    exact List.pairwise_cons.mpr ⟨before, numbered.order⟩
  · cases passed.symm.trans same
    rw [numbers] at told
    rcases List.mem_cons.mp told with rfl | old
    · exact Nat.lt_succ_self m
    · exact (before m old).trans (Nat.lt_succ_self n)

theorem advance_numbered (advance : Advance left loose d d') (numbered : d.Numbered) : d'.Numbered := by
  cases advance with
  | ease eases =>
      have numbers : d'.numbers = d.numbers := congrArg (List.filterMap _) eases.told
      refine ⟨by rw [numbers]; exact numbered.order, fun n serial => ?_⟩
      rw [numbers]
      rcases eases.serial with same | gone
      · exact numbered.next n (same.symm.trans serial)
      · cases gone.symm.trans serial
  | spend n serial =>
      refine ⟨numbered.order, fun next same m told => ?_⟩
      cases same
      exact (numbered.next n serial m told).trans (Nat.lt_succ_self n)
  | send n badge dispatch k serial => exact numbered_more n numbered serial rfl rfl
  | deliver n a i badge k e serial => exact numbered_more n numbered serial rfl rfl
  | putOff n a k serial => exact numbered_more n numbered serial rfl rfl
  | complete | hand | repost | post | skip | pass | free | letGo => exact ⟨numbered.order, numbered.next⟩

theorem numbered_earlier (x y : Happening) (n m : Nat) (numbered : d.Numbered) (earlier : Earlier x y d.told)
    (first : x.serial? = some n) (second : y.serial? = some m) : n < m := by
  have above : m > n := pair_related (pair_numbers earlier second first) numbered.order
  exact above

def lane (f : Errand → Option Nat) (work : Nat → List Errand) (i : Nat) : List Nat := (work i).filterMap f

variable {f : Errand → Option Nat} {work : Nat → List Errand} {x : Errand} {rest : List Errand} {j n : Nat}

theorem lane_push (named : f x = some n) (i : Nat) :
    lane f (push j x work) i = if i = j then lane f work i ++ [n] else lane f work i := by
  unfold lane push
  split
  · next here => rw [here, Function.update_self, List.filterMap_append, List.filterMap_cons_some named, List.filterMap_nil]
  · next apart => rw [Function.update_of_ne apart]

theorem lane_push_silent (silent : f x = none) : lane f (push j x work) = lane f work := by
  funext i
  unfold lane push
  by_cases here : i = j
  · rw [here, Function.update_self, List.filterMap_append, List.filterMap_cons_none silent, List.filterMap_nil, List.append_nil]
  · rw [Function.update_of_ne here]

theorem lane_pop (first : work j = x :: rest) (named : f x = some n) (i : Nat) :
    lane f work i = if i = j then n :: lane f (Function.update work j rest) i else lane f (Function.update work j rest) i := by
  unfold lane
  split
  · next here => rw [here, first, Function.update_self, List.filterMap_cons_some named]
  · next apart => rw [Function.update_of_ne apart]

theorem lane_pop_silent (first : work j = x :: rest) (silent : f x = none) :
    lane f (Function.update work j rest) = lane f work := by
  funext i
  unfold lane
  by_cases here : i = j
  · rw [here, first, Function.update_self, List.filterMap_cons_none silent]
  · rw [Function.update_of_ne here]

theorem lane_less {left : List Errand} (less : left.Sublist (work j)) (i : Nat) :
    (lane f (Function.update work j left) i).Sublist (lane f work i) := by
  unfold lane
  by_cases here : i = j
  · rw [here, Function.update_self]
    exact less.filterMap f
  · rw [Function.update_of_ne here]

theorem lane_clear (i : Nat) : lane f (Function.update work j []) i = if i = j then [] else lane f work i := by
  unfold lane
  split
  · next here => rw [here, Function.update_self, List.filterMap_nil]
  · next apart => rw [Function.update_of_ne apart]

end Docket

namespace Scene

theorem opens_docket (link : LinkSettings) (c : Scene) (opens : c.Opens link) :
    c.stack.docket.told = [] ∧ c.stack.docket.waiting = [] ∧ ∀ i, c.stack.docket.work i = [] := by
  obtain ⟨-, linked, history, -, -, loops⟩ := opens_cases link c opens
  rw [Stack.docket, linked]
  refine ⟨?_, rfl, fun i => ?_⟩
  · rw [Hub.docket, history]
    rfl
  · change c.stack.hub.work i = []
    cases place : c.stack.hub.loops[i]? with
    | none => rw [Hub.work, place, Option.map_none, Option.getD_none]
    | some l =>
        obtain ⟨settings, rfl⟩ := loops l (List.mem_of_getElem? place)
        rw [(Hub.place_work c.stack.hub i _ place).1]
        rfl

theorem opens_numbered (link : LinkSettings) (c : Scene) (opens : c.Opens link) : c.stack.docket.Numbered := by
  have numbers : c.stack.docket.numbers = [] := by
    rw [Docket.numbers, (opens_docket link c opens).1]
    rfl
  refine ⟨?_, ?_⟩ <;> rw [numbers]
  · exact .nil
  · simp

end Scene

end HubRelay
