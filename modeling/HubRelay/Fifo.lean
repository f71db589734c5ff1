/-! First-in first-out queues, seen as the list of what waits, oldest first. -/

set_option autoImplicit false

namespace HubRelay

structure Fifo (α : Type) where
  front : List α
  back : List α

namespace Fifo

variable {α : Type}

def empty : Fifo α := ⟨[], []⟩

def toList (q : Fifo α) : List α := q.front ++ q.back.reverse

def length (q : Fifo α) : Nat := q.front.length + q.back.length

def push (a : α) (q : Fifo α) : Fifo α := { q with back := a :: q.back }

def pop? (q : Fifo α) : Option (α × Fifo α) :=
  match q.front with
  | a :: rest => some (a, { q with front := rest })
  | [] =>
      match q.back.reverse with
      | a :: rest => some (a, ⟨rest, []⟩)
      | [] => none

@[simp] theorem toList_empty : (empty : Fifo α).toList = [] := rfl

@[simp] theorem length_toList (q : Fifo α) : q.toList.length = q.length := by
  simp [toList, length]

@[simp] theorem toList_push (a : α) (q : Fifo α) : (q.push a).toList = q.toList ++ [a] := by
  simp [push, toList]

theorem pop?_eq_none {q : Fifo α} : q.pop? = none ↔ q.toList = [] := by
  rcases q with ⟨front, back⟩
  cases front with
  | cons a rest => simp [pop?, toList]
  | nil =>
      simp only [pop?, toList, List.nil_append]
      cases back.reverse <;> simp

theorem toList_of_pop? {q rest : Fifo α} {a : α} (h : q.pop? = some (a, rest)) :
    q.toList = a :: rest.toList := by
  rcases q with ⟨front, back⟩
  cases front with
  | cons b tail =>
      simp only [pop?, Option.some.injEq, Prod.mk.injEq] at h
      obtain ⟨rfl, rfl⟩ := h
      rfl
  | nil =>
      simp only [pop?] at h
      simp only [toList, List.nil_append]
      cases backward : back.reverse with
      | nil => simp [backward] at h
      | cons b tail =>
          simp only [backward, Option.some.injEq, Prod.mk.injEq] at h
          obtain ⟨rfl, rfl⟩ := h
          simp

end Fifo

end HubRelay
