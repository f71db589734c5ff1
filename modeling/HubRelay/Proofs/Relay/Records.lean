import HubRelay.Proofs.Relay.Ownership

/-! The history of a scene: its messages are numbered apart, and every parcel in the pool has its origin
there. -/

set_option autoImplicit false

namespace HubRelay

namespace Happening

def serial? : Happening → Option Nat
  | .offered n _ _ _ | .arrived n _ _ => some n
  | _ => none

def sent? : Happening → Option Nat
  | .offered n _ _ (.sent _) => some n
  | _ => none

def completed? : Happening → Option Nat
  | .completed n _ => some n
  | _ => none

end Happening

theorem filterMap_sublist {α β : Type} (f g : α → Option β) (items : List α)
    (within : ∀ a b, f a = some b → g a = some b) : (items.filterMap f).Sublist (items.filterMap g) := by
  induction items with
  | nil => exact .slnil
  | cons a rest ih =>
      cases found : f a with
      | some b =>
          rw [List.filterMap_cons_some found, List.filterMap_cons_some (within a b found)]
          exact ih.cons_cons b
      | none =>
          rw [List.filterMap_cons_none found]
          cases other : g a with
          | none =>
              rw [List.filterMap_cons_none other]
              exact ih
          | some b =>
              rw [List.filterMap_cons_some other]
              exact ih.cons b

section Pairs

variable {α : Type} {l : List α} {a b : α}

theorem pair_either (first : a ∈ l) (second : b ∈ l) (apart : a ≠ b) : [a, b].Sublist l ∨ [b, a].Sublist l := by
  induction l with
  | nil => exact absurd first List.not_mem_nil
  | cons c rest ih =>
      rcases List.mem_cons.mp first with rfl | inA
      · exact .inl (.cons_cons a (List.singleton_sublist.mpr ((List.mem_cons.mp second).resolve_left (Ne.symm apart))))
      · rcases List.mem_cons.mp second with rfl | inB
        · exact .inr (.cons_cons b (List.singleton_sublist.mpr inA))
        · exact (ih inA inB).imp (.cons c) (.cons c)

theorem pair_related {R : α → α → Prop} (pair : [a, b].Sublist l) (related : l.Pairwise R) : R a b :=
  List.rel_of_pairwise_cons (related.sublist pair) List.mem_cons_self

theorem pair_numbers {f : α → Option Nat} {n m : Nat} (pair : [a, b].Sublist l) (first : f a = some n) (second : f b = some m) :
    [n, m].Sublist (l.filterMap f) := by
  have mapped := pair.filterMap f
  rw [List.filterMap_cons_some first, List.filterMap_cons_some second] at mapped
  exact mapped

theorem named_once {f : α → Option Nat} {n : Nat} (once : (l.filterMap f).Nodup) (first : a ∈ l) (second : b ∈ l)
    (named : f a = some n) (named' : f b = some n) : a = b := by
  by_contra apart
  rcases pair_either first second apart with pair | pair
  · exact pair_related (pair_numbers pair named named') once rfl
  · exact pair_related (pair_numbers pair named' named) once rfl

end Pairs

def Routing.Admits : Routing → Prop
  | .delivered | .deferred => True
  | .rejected _ => False

-- Where the history has it from that `k` holds this parcel.
def Origin (history : List Happening) (k : Handle) (parcel : Parcel) : Prop :=
  (∃ badge d woke, .offered parcel.serial badge d (.sent k) ∈ history ∧
    parcel.message = d.message badge woke ∧ parcel.callback = d.free) ∨
  ∃ a routing, .arrived parcel.serial a routing ∈ history ∧ routing.Admits ∧
    parcel.message = a.message ∧ parcel.callback = none

theorem Origin.mono {history more : List Happening} {k : Handle} {parcel : Parcel} (origin : Origin history k parcel)
    (within : ∀ x ∈ history, x ∈ more) : Origin more k parcel := by
  rcases origin with ⟨badge, d, woke, member, rest⟩ | ⟨a, routing, member, rest⟩
  · exact .inl ⟨badge, d, woke, within _ member, rest⟩
  · exact .inr ⟨a, routing, within _ member, rest⟩

theorem Origin.sending {history : List Happening} {k : Handle} {parcel : Parcel} {m : Message}
    (origin : Origin history k parcel) (sending : parcel.tenure = .sending m) :
    ∃ badge d woke, .offered parcel.serial badge d (.sent k) ∈ history ∧
      parcel.message = d.message badge woke ∧ parcel.callback = d.free := by
  rcases origin with outbound | ⟨a, routing, -, -, message, -⟩
  · exact outbound
  · simp only [Parcel.tenure, message, Arrival.message] at sending
    cases sending

theorem Origin.arriving {history : List Happening} {k : Handle} {parcel : Parcel} {n : Nat}
    (origin : Origin history k parcel) (arriving : parcel.tenure = .arriving n) :
    ∃ a routing, .arrived n a routing ∈ history ∧ routing.Admits ∧
      parcel.message = a.message ∧ parcel.callback = none ∧ parcel.serial = n := by
  rcases origin with ⟨badge, d, woke, -, message, -⟩ | ⟨a, routing, member, admits, message, callback⟩
  · simp only [Parcel.tenure, message, Dispatch.message] at arriving
    cases arriving
  · simp only [Parcel.tenure, message, Arrival.message] at arriving
    cases arriving
    exact ⟨a, routing, member, admits, message, callback, rfl⟩

namespace Traffic

theorem change_history (past : Hub) (t t' : Traffic) (change : Change past t t') :
    ∃ news, t'.history = news ++ t.history := by
  cases change with
  | narrow | shut | detach | bounce | lose | fizzle | finish => exact ⟨[], rfl⟩
  | remark | request | refuse | accept | release | hand | abandon | turnDown | putOff | repost | stray | turnAway |
      free | pass | miss => exact ⟨[_], rfl⟩
  | deliver => exact ⟨[_, _], rfl⟩

theorem history_within (past : Hub) (t t' : Traffic) (change : Change past t t') (x : Happening) (member : x ∈ t.history) :
    x ∈ t'.history := by
  obtain ⟨news, same⟩ := change_history past t t' change
  rw [same]
  exact List.mem_append_right news member

theorem drops_cases (past : Hub) (i : Nat) (e : Event) (x : Happening) (drops : past.Drops i e x) :
    x = .missed i e ∨ x = .drained i e := by
  obtain ⟨l, -, ⟨rfl, -⟩ | ⟨rfl, -⟩⟩ := drops
  · exact .inl rfl
  · exact .inr rfl

theorem change_serials (past : Hub) (t t' : Traffic) (change : Change past t t') :
    (t'.history.filterMap Happening.serial? = t.history.filterMap Happening.serial? ∧ t'.serial = t.serial ∧
        (t'.pool.isSome → t.pool.isSome)) ∨
      t.pool.isSome ∧ t'.serial = t.serial + 1 ∧
        t'.history.filterMap Happening.serial? = t.serial :: t.history.filterMap Happening.serial? := by
  cases change with
  | refuse badge d failure payload alive => exact .inr ⟨alive, rfl, rfl⟩
  | turnDown a failure alive => exact .inr ⟨alive, rfl, rfl⟩
  | accept badge d woke p next k alive allocated => exact .inr ⟨by rw [alive]; rfl, rfl, rfl⟩
  | deliver a p next k i badge alive allocated located known => exact .inr ⟨by rw [alive]; rfl, rfl, rfl⟩
  | putOff a p next k alive allocated => exact .inr ⟨by rw [alive]; rfl, rfl, rfl⟩
  | remark x idle =>
      refine .inl ⟨?_, rfl, id⟩
      cases x <;> first | rfl | exact idle.elim
  | miss i n k e x es work bears drops =>
      refine .inl ⟨?_, rfl, by simp⟩
      rcases drops_cases past i e x drops with rfl | rfl <;> rfl
  | _ => exact .inl ⟨rfl, rfl, by simp_all⟩

structure Numbered (t : Traffic) : Prop where
  fresh : t.pool.isSome → ∀ n ∈ t.history.filterMap Happening.serial?, n < t.serial
  apart : (t.history.filterMap Happening.serial?).Nodup

theorem change_numbered (past : Hub) (t t' : Traffic) (change : Change past t t') (numbered : t.Numbered) :
    t'.Numbered := by
  obtain ⟨fresh, apart⟩ := numbered
  rcases change_serials past t t' change with ⟨same, serial, survives⟩ | ⟨alive, serial, next⟩
  · constructor
    · rw [same, serial]
      exact fun alive => fresh (survives alive)
    · rw [same]
      exact apart
  · constructor
    · rw [next, serial]
      intro _ n member
      rcases List.mem_cons.mp member with rfl | member
      · exact Nat.lt_succ_self _
      · exact Nat.lt_succ_of_lt (fresh alive n member)
    · rw [next]
      exact List.nodup_cons.mpr ⟨fun member => Nat.lt_irrefl _ (fresh alive _ member), apart⟩

theorem numbered_unique (history : List Happening) (apart : (history.filterMap Happening.serial?).Nodup) (x y : Happening)
    (n : Nat) (one : x ∈ history) (other : y ∈ history) (first : x.serial? = some n) (second : y.serial? = some n) :
    x = y :=
  named_once apart one other first second

def Founded (t : Traffic) : Prop :=
  ∀ p, t.pool = some p → ∀ k parcel, (k, some parcel) ∈ p.occupied → Origin t.history k parcel

theorem change_parcels (past : Hub) (t t' : Traffic) (change : Change past t t') (owned : t.Owned) (p' : SlotPool Parcel)
    (alive' : t'.pool = some p') (k : Handle) (parcel : Parcel) (member : (k, some parcel) ∈ p'.occupied) :
    (∃ p, t.pool = some p ∧ (k, some parcel) ∈ p.occupied) ∨ Origin t'.history k parcel := by
  have taken : ∀ p fresh k', t.pool = some p → p.allocate fresh = some (k', p') →
      (∃ p, t.pool = some p ∧ (k, some parcel) ∈ p.occupied) ∨ k = k' ∧ parcel = fresh := by
    intro p fresh k' alive allocated
    obtain ⟨-, gain⟩ := SlotPool.allocate_cases fresh p p' k' (owned p alive).1 allocated
    rw [gain, Multiset.mem_cons] at member
    rcases member with equal | member
    · cases equal
      exact .inr ⟨rfl, rfl⟩
    · exact .inl ⟨p, alive, member⟩
  have kept : ∀ p v k', t.pool = some p → (k', v) ∈ p.occupied → p' = p.reclaimed k' →
      (∃ p, t.pool = some p ∧ (k, some parcel) ∈ p.occupied) ∨ Origin t'.history k parcel := by
    intro p v k' alive held same
    rw [same] at member
    exact .inl ⟨p, alive, by
      rw [(SlotPool.reclaimed_cases k' p v (owned p alive).1 held).2]
      exact Multiset.mem_cons_of_mem member⟩
  cases change with
  | bounce p next fresh k' alive allocated =>
      cases alive'
      rw [(SlotPool.allocate_reclaimed fresh p next k' (owned p alive).1 allocated).2] at member
      exact .inl ⟨p, alive, member⟩
  | accept badge d woke p next k' alive allocated =>
      cases alive'
      rcases taken p _ k' alive allocated with old | ⟨rfl, rfl⟩
      · exact .inl old
      · exact .inr (.inl ⟨badge, d, woke, List.mem_cons_self, rfl, rfl⟩)
  | deliver a p next k' i badge alive allocated located known =>
      cases alive'
      rcases taken p _ k' alive allocated with old | ⟨rfl, rfl⟩
      · exact .inl old
      · exact .inr (.inr ⟨a, .delivered, List.mem_cons_self, trivial, rfl, rfl⟩)
  | putOff a p next k' alive allocated =>
      cases alive'
      rcases taken p _ k' alive allocated with old | ⟨rfl, rfl⟩
      · exact .inl old
      · exact .inr (.inr ⟨a, .deferred, List.mem_cons_self, trivial, rfl, rfl⟩)
  | release m w p fresh waits alive live silent =>
      cases alive'
      refine .inl ⟨p, alive, ?_⟩
      rw [(SlotPool.retired_reclaimed m.handle p fresh (owned p alive).1 live).2]
      exact Multiset.mem_cons_of_mem member
  | hand m w p fresh callback i waits alive live heard home =>
      cases alive'
      obtain ⟨-, rest, before, after⟩ := SlotPool.put_cases m.handle p fresh (owned p alive).1 live
      rw [after, Multiset.mem_cons] at member
      rcases member with equal | member
      · cases equal
      · exact .inl ⟨p, alive, by rw [before]; exact Multiset.mem_cons_of_mem member⟩
  | abandon m w p fresh callback i waits alive live heard home closed =>
      cases alive'
      refine .inl ⟨p, alive, ?_⟩
      rw [(SlotPool.retired_reclaimed m.handle p fresh (owned p alive).1 live).2]
      exact Multiset.mem_cons_of_mem member
  | stray j n k' es p fresh work alive live nowhere =>
      cases alive'
      exact kept p _ k' alive ((SlotPool.mem_occupied_live? k' fresh p).mpr live) rfl
  | turnAway j n k' es p fresh i badge l work alive live located place refuses =>
      cases alive'
      exact kept p _ k' alive ((SlotPool.mem_occupied_live? k' fresh p).mpr live) rfl
  | miss i n k' e x es work bears drops =>
      obtain ⟨p, alive, rfl⟩ := Option.map_eq_some_iff.mp alive'
      obtain ⟨v, held, -⟩ := owned_slot t p k' (.arriving n) owned alive (by simp [errand_holds t i _ es work, Errand.holding])
      exact kept p v k' alive held rfl
  | finish i k' x es work ends =>
      obtain ⟨p, alive, rfl⟩ := Option.map_eq_some_iff.mp alive'
      obtain ⟨v, held⟩ := owned_finish t p i k' x es owned alive work ends
      exact kept p v k' alive held rfl
  | _ => exact .inl ⟨p', alive', member⟩

theorem change_founded (past : Hub) (t t' : Traffic) (change : Change past t t') (owned : t.Owned) (founded : t.Founded) :
    t'.Founded := by
  intro p' alive' k parcel member
  rcases change_parcels past t t' change owned p' alive' k parcel member with ⟨p, alive, held⟩ | fresh
  · exact (founded p alive k parcel held).mono (history_within past t t' change)
  · exact fresh

end Traffic

namespace Stack

theorem sendAs_answer (badge : Badge) (d : Dispatch Action) (r : Relay) (s : Stack) :
    (∃ k, (s.sendAs badge d r).1 = .sent k) ∨ ∃ failure payload, (s.sendAs badge d r).1 = .rejected failure payload := by
  rcases sendAs_cases badge d s r with ⟨failure, refused⟩ | ⟨woke, k, pool, -, answered⟩
  · rw [refused]
    exact .inr ⟨_, _, rfl⟩
  · rw [answered]
    split
    · exact .inl ⟨_, rfl⟩
    · exact .inr ⟨_, _, rfl⟩

end Stack
end HubRelay
