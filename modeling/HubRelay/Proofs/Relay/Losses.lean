import HubRelay.Proofs.Loop.Capacity
import HubRelay.Proofs.Relay.AnyLink

/-! Loops that are let go with tasks in their queues. What was to be done there for a message is lost for good, and the
relay's records stay as sound as they were. -/

set_option autoImplicit false

namespace HubRelay

def Incident.Honest : Incident → Prop
  | .move m => m.Honest
  | .dropLoop _ => True

namespace Custody

variable {t t' : Custody}

-- Errands that nobody is left to run go on being owed.
def beside (lost : Multiset (Nat × Errand)) (t : Custody) : Custody := { t with errands := lost + t.errands }

theorem beside_none (t : Custody) : t.beside 0 = t := by rw [beside, zero_add]

theorem beside_more (lost more : Multiset (Nat × Errand)) (t : Custody) :
    (t.beside more).beside lost = t.beside (lost + more) := by
  simp only [beside, add_assoc]

theorem deal_beside (lost : Multiset (Nat × Errand)) (deal : Deal t t') : Deal (t.beside lost) (t'.beside lost) := by
  have gain : ∀ (x : Nat × Errand) (es : Multiset (Nat × Errand)), lost + x ::ₘ es = x ::ₘ (lost + es) :=
    fun x es => Multiset.add_cons x lost es
  have owed : ∀ (x : Nat × Errand) es, t.errands = x ::ₘ es → (t.beside lost).errands = x ::ₘ (lost + es) := by
    intro x es work
    rw [beside, work]
    exact gain x es
  cases deal with
  | remark x plain idle => exact .remark x plain idle
  | refuse badge d failure payload alive idle early => exact .refuse badge d failure payload alive idle early
  | lend badge d woke p next k alive idle allocated => exact .lend badge d woke p next k alive idle allocated
  | accept b alive bids => exact .accept b alive bids
  | withdraw b payload alive bids => exact .withdraw b payload alive bids
  | settle p parcel k fate alive live ended => exact .settle p parcel k fate alive live ended
  | turnDown a failure alive idle early => exact .turnDown a failure alive idle early
  | bounce a p next k alive idle allocated => exact .bounce a p next k alive idle allocated
  | bereave idle => exact .bereave idle
  | hand p parcel k callback i alive live heard =>
      simp only [beside, gain]
      exact .hand (t := t.beside lost) p parcel k callback i alive live heard
  | deliver a p next k i badge alive idle allocated =>
      simp only [beside, gain]
      exact .deliver (t := t.beside lost) a p next k i badge alive idle allocated
  | putOff a p next k alive idle allocated =>
      simp only [beside, gain]
      exact .putOff (t := t.beside lost) a p next k alive idle allocated
  | ask p parcel k alive idle live =>
      simp only [beside, gain]
      exact .ask (t := t.beside lost) p parcel k alive idle live
  | repost j n k es p parcel i badge idle work alive live =>
      simp only [beside, gain]
      exact .repost (t := t.beside lost) j n k (lost + es) p parcel i badge idle (owed _ es work) alive live
  | fizzle j n k es idle work gone => exact .fizzle (t := t.beside lost) j n k (lost + es) idle (owed _ es work) gone
  | free i n k callback payload es idle work =>
      simp only [beside, gain]
      exact .free (t := t.beside lost) i n k callback payload (lost + es) idle (owed _ es work)
  | pass i n k e es idle work =>
      simp only [beside, gain]
      exact .pass (t := t.beside lost) i n k e (lost + es) idle (owed _ es work)
  | giveUp i x es idle work unpledged =>
      exact .giveUp (t := t.beside lost) i x (lost + es) idle (owed _ es work) unpledged

theorem deals_beside (lost : Multiset (Nat × Errand)) (deals : Deals t t') : Deals (t.beside lost) (t'.beside lost) := by
  induction deals with
  | refl => exact .refl
  | tail _ deal ih => exact .tail ih (deal_beside lost deal)

end Custody

variable {hand : List (Nat × Epilogue)} {asked : List Parcel}

def Task.allErrands (i : Nat) (tasks : List Task) : Multiset (Nat × Errand) := ((tasks.filterMap Task.errand?).map (i, ·) : List _)

theorem Task.allErrands_cons (i : Nat) (t : Task) (tasks : List Task) :
    Task.allErrands i (t :: tasks) = t.errands i + Task.allErrands i tasks := by
  unfold Task.allErrands Task.errands
  cases errand : t.errand? <;> simp [errand]

namespace Hub

theorem discardTask_deals (i : Nat) (t : Task) (h : Hub) :
    ∃ lost, Deals ((h.custody hand asked none).beside (t.errands i)) (((h.discardTask t).custody hand asked none).beside lost) := by
  cases t with
  | event e =>
      refine ⟨0, ?_⟩
      rw [Custody.beside_none]
      exact discard_deals h i e _ (.inl rfl)
  | job j => cases j <;> exact ⟨_, .refl⟩
  | load | unload | stop => exact ⟨_, .refl⟩

theorem discarded_deals (i : Nat) (tasks : List Task) (h : Hub) (lost : Multiset (Nat × Errand)) :
    ∃ more, Deals ((h.custody hand asked none).beside (Task.allErrands i tasks + lost))
      (((tasks.foldl (fun h t => h.discardTask t) h).custody hand asked none).beside more) := by
  induction tasks generalizing h lost with
  | nil =>
      refine ⟨lost, deals_to .refl ?_⟩
      rw [show Task.allErrands i [] = 0 from rfl, zero_add]
      rfl
  | cons t rest ih =>
      obtain ⟨left, first⟩ := @discardTask_deals hand asked i t h
      obtain ⟨more, later⟩ := ih (h.discardTask t) (left + lost)
      have first := Custody.deals_beside (Task.allErrands i rest + lost) first
      rw [Custody.beside_more, Custody.beside_more] at first
      have owed : Task.allErrands i (t :: rest) + lost = Task.allErrands i rest + lost + t.errands i := by
        rw [Task.allErrands_cons]
        ac_rfl
      have left : Task.allErrands i rest + lost + left = Task.allErrands i rest + (left + lost) := by ac_rfl
      rw [← left] at later
      rw [owed]
      exact ⟨more, first.trans later⟩

end Hub

namespace Stack

theorem dropLoop_deals (i : Nat) (s : Stack) (lost : Multiset (Nat × Errand)) :
    ∃ more, Deals ((s.hub.custody hand asked none).beside lost) (((s.dropLoop i).hub.custody hand asked none).beside more) := by
  rcases s.hub.modify_cases i fun l => { l with queue := .empty, apps := [], attached := false } with
    ⟨absent, same⟩ | ⟨l, place, change⟩
  · have dropped : (s.dropLoop i).hub = s.hub := by
      simp only [dropLoop, loop?, absent, modifyLoop, onHub, same]
      rfl
    rw [dropped]
    exact ⟨lost, .refl⟩
  · have emptied := @Hub.discarded_deals hand asked i l.queue.toList
      (s.hub.modifyLoop i fun l => { l with queue := .empty, apps := [], attached := false }) lost
    have owed := gather_set_less RunLoop.errands s.hub.loops i l { l with queue := .empty, apps := [], attached := false }
      (Task.allErrands i l.queue.toList) place (add_zero _).symm
    have held : (s.hub.custody hand asked none).beside lost = ((s.hub.modifyLoop i fun l =>
        { l with queue := .empty, apps := [], attached := false }).custody hand asked none).beside
          (Task.allErrands i l.queue.toList + lost) := by
      rw [change]
      simp only [Custody.beside, Hub.custody, owed, Custody.mk.injEq, true_and, and_true]
      exact ⟨rfl, by ac_rfl⟩
    rw [held]
    simp only [dropLoop, loop?, place, modifyLoop, onHub]
    exact emptied

end Stack

namespace Scene

theorem meet_deals (x : Incident) (c : Scene) (asked : List Parcel) (lost : Multiset (Nat × Errand)) (honest : x.Honest) :
    ∃ asked' more, Deals ((c.custody asked).beside lost) (((c.meet x).custody asked').beside more) := by
  cases x with
  | move m => exact ⟨_, lost, Custody.deals_beside lost (move_deals m c asked honest)⟩
  | dropLoop i => exact ⟨asked, c.stack.dropLoop_deals i lost⟩

theorem undergo_deals (incidents : List Incident) (c : Scene) (asked : List Parcel) (lost : Multiset (Nat × Errand))
    (honest : ∀ x ∈ incidents, x.Honest) :
    ∃ asked' more, Deals ((c.custody asked).beside lost) (((c.undergo incidents).custody asked').beside more) := by
  induction incidents generalizing c asked lost with
  | nil => exact ⟨asked, lost, .refl⟩
  | cons x rest ih =>
      obtain ⟨asked', left, first⟩ := meet_deals x c asked lost (honest x List.mem_cons_self)
      obtain ⟨asked'', more, later⟩ := ih (c.meet x) asked' left fun y member => honest y (List.mem_cons_of_mem x member)
      exact ⟨asked'', more, first.trans later⟩

theorem undergo_sound (size : Nat) (incidents : List Incident) (c : Scene) (opening : c.Opening size)
    (honest : ∀ x ∈ incidents, x.Honest) :
    ∃ asked lost, (((c.undergo incidents).custody asked).beside lost).Sound size := by
  obtain ⟨asked, lost, deals⟩ := undergo_deals incidents c [] 0 honest
  rw [Custody.beside_none] at deals
  exact ⟨asked, lost, Custody.deals_sound deals (opening_sound size c opening)⟩

theorem undergo_pool (size : Nat) (incidents : List Incident) (c : Scene) (opening : c.Opening size)
    (honest : ∀ x ∈ incidents, x.Honest) (r : Relay) (relay : (c.undergo incidents).stack.hub.relay = some r) : r.pool.Sound := by
  obtain ⟨asked, lost, sound⟩ := undergo_sound size incidents c opening honest
  obtain ⟨alive, -⟩ := @Hub.custody_pool (c.undergo incidents).hand asked none _ r relay
  exact (sound.housed r.pool alive).1

end Scene

end HubRelay
