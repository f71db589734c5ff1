import HubRelay.Proofs.Pool.Calls
import Mathlib.Data.List.Induction

/-! What a handle reaches, however often its slot was handed out since. -/

set_option autoImplicit false

namespace HubRelay

variable {α : Type}

def PoolCall.handle? : PoolCall α → Option Handle
  | .allocate _ => none
  | .read k | .retire k | .release k => some k

-- How many generations a slot has. After so many allocations they begin anew.
def generations : Nat := 4294967296

abbrev PoolHistory (α : Type) := List (PoolCall α × PoolAnswer α)

namespace PoolHistory

def grant? : PoolCall α × PoolAnswer α → Option (Handle × α)
  | (.allocate a, .granted k) => some (k, a)
  | _ => none

def yield? : PoolCall α × PoolAnswer α → Option (Handle × α)
  | (.retire k, .retired (some a)) => some (k, a)
  | (.release k, .released (some a)) => some (k, a)
  | _ => none

def release? : PoolCall α × PoolAnswer α → Option Handle
  | (.release k, .released _) => some k
  | _ => none

def grants (h : PoolHistory α) : List (Handle × α) := h.filterMap grant?

def yields (h : PoolHistory α) : List (Handle × α) := h.filterMap yield?

def releases (h : PoolHistory α) : List Handle := h.filterMap release?

def allocations (i : Nat) (h : PoolHistory α) : Nat := h.grants.countP (·.1.slot == i)

def taken (k : Handle) (h : PoolHistory α) : List α := h.yields.filterMap fun x => if x.1 = k then some x.2 else none

theorem grants_append (h more : PoolHistory α) : grants (h ++ more) = h.grants ++ more.grants := List.filterMap_append

theorem yields_append (h more : PoolHistory α) : yields (h ++ more) = h.yields ++ more.yields := List.filterMap_append

theorem releases_append (h more : PoolHistory α) : releases (h ++ more) = h.releases ++ more.releases := List.filterMap_append

theorem allocations_append (i : Nat) (h more : PoolHistory α) :
    allocations i (h ++ more) = h.allocations i + more.allocations i := by
  rw [allocations, grants_append, List.countP_append]
  rfl

theorem taken_append (k : Handle) (h more : PoolHistory α) : taken k (h ++ more) = h.taken k ++ more.taken k := by
  rw [taken, yields_append, List.filterMap_append]
  rfl

end PoolHistory

namespace SlotPool

open PoolHistory

def answers : List (PoolCall α) → SlotPool α → PoolHistory α
  | [], _ => []
  | c :: rest, p => (c, (p.call c).1) :: answers rest (p.call c).2

theorem answers_append (calls more : List (PoolCall α)) (p : SlotPool α) :
    p.answers (calls ++ more) = p.answers calls ++ (p.after calls).answers more := by
  induction calls generalizing p with
  | nil => rfl
  | cons c rest ih =>
      rw [List.cons_append, answers, ih, answers, List.cons_append]
      rfl

def occupant (i : Nat) (p : SlotPool α) : Option (SlotState α) := p.slots[i]?.map (·.state)

def generation? (i : Nat) (p : SlotPool α) : Option UInt32 := p.slots[i]?.map (·.generation)

theorem generation_put (p : SlotPool α) (k : Handle) (old new : SlotState α) (reads : p.state? k = some old) (i : Nat) :
    (p.put k new).generation? i = p.generation? i := by
  have place := (state_place k p old).mp reads
  rw [Array.getElem?_toList] at place
  obtain ⟨bound, -⟩ := Array.getElem?_eq_some_iff.mp place
  by_cases same : i = k.slot
  · simp only [generation?, put, same, Array.getElem?_setIfInBounds_self_of_lt bound, place, Option.map_some]
  · simp only [generation?, put, Array.getElem?_setIfInBounds_ne (Ne.symm same)]

theorem calls_generation (p next : SlotPool α) (c : PoolCall α) (answer : PoolAnswer α) (calls : p.Calls c answer next)
    (sound : p.Sound) (i : Nat) :
    next.generation? i = (p.generation? i).map (· + UInt32.ofNat (allocations i [(c, answer)])) := by
  have still : ∀ x : Option UInt32, x = x.map (· + UInt32.ofNat 0) := by
    intro x
    cases x <;> simp
  cases calls with
  | exhausted | read | spent | stale => exact still _
  | retire k a live => exact (generation_put p k _ .retiring live i).trans (still _)
  | release k v member => exact (generation_put p k _ .vacant ((mem_occupied k v p).mp member) i).trans (still _)
  | grant a k next allocated =>
      obtain ⟨generation, place, bumped, slots, -⟩ := allocate_place a p next k sound allocated
      unfold generation?
      rw [slots]
      by_cases here : k.slot = i
      · subst here
        have one : allocations k.slot [(.allocate a, .granted k)] = 1 := by simp [allocations, grants, grant?]
        rw [Array.getElem?_setIfInBounds_self, if_pos (Array.getElem?_eq_some_iff.mp place).1, place, one, bumped]
        rfl
      · have none : allocations i [(.allocate a, .granted k)] = 0 := by simp [allocations, grants, grant?, here]
        rw [Array.getElem?_setIfInBounds_ne here, none]
        exact still _

theorem after_generation (calls : List (PoolCall α)) (p : SlotPool α) (sound : p.Sound) (i : Nat) :
    (p.after calls).generation? i = (p.generation? i).map (· + UInt32.ofNat (allocations i (p.answers calls))) := by
  induction calls generalizing p with
  | nil =>
      change p.generation? i = (p.generation? i).map (· + 0)
      cases p.generation? i <;> simp
  | cons c rest ih =>
      have step := call_cases c p
      have later := ih (p.call c).2 (calls_sound p _ c _ step sound)
      rw [calls_generation p _ c _ step sound i, Option.map_map] at later
      have split : allocations i (p.answers (c :: rest)) =
          allocations i [(c, (p.call c).1)] + allocations i ((p.call c).2.answers rest) :=
        allocations_append i [(c, (p.call c).1)] _
      rw [split, UInt32.ofNat_add]
      refine later.trans (congrArg (Option.map · _) ?_)
      funext g
      exact UInt32.add_assoc _ _ _

theorem generation_zero (m : Nat) : UInt32.ofNat m = 0 ↔ m % generations = 0 := by
  rw [← UInt32.toNat_inj, UInt32.toNat_ofNat]
  rfl

theorem mem_occupied_generation (k : Handle) (v : Option α) (p : SlotPool α) :
    (k, v) ∈ p.occupied ↔ p.occupant k.slot = some (holdingState v) ∧ p.generation? k.slot = some k.generation := by
  rw [mem_occupied, state_place, Array.getElem?_toList]
  unfold occupant generation?
  cases p.slots[k.slot]? with
  | none => simp
  | some slot =>
      obtain ⟨generation, state⟩ := slot
      simp [and_comm]

theorem calls_occupied (p next : SlotPool α) (c : PoolCall α) (answer : PoolAnswer α) (calls : p.Calls c answer next)
    (sound : p.Sound) : ∃ old new rest : Multiset (Handle × Option α), p.occupied = old + rest ∧ next.occupied = new + rest ∧
      (∀ x ∈ old, c.handle? = some x.1) ∧ ∀ x ∈ new, c.handle? = some x.1 ∨ answer = .granted x.1 := by
  cases calls with
  | exhausted | read | spent | stale => exact ⟨0, 0, p.occupied, by simp⟩
  | grant a k next allocated =>
      refine ⟨0, {(k, some a)}, p.occupied, (zero_add _).symm, ?_, by simp, by simp⟩
      rw [(allocate_cases a p next k sound allocated).2, Multiset.singleton_add]
  | retire k a live =>
      obtain ⟨rest, before⟩ := Multiset.exists_cons_of_mem ((mem_occupied k (some a) p).mpr live)
      refine ⟨{(k, some a)}, {(k, none)}, rest, before, ?_, by simp [PoolCall.handle?], by simp [PoolCall.handle?]⟩
      exact retire_occupied k p _ a rest (by rw [SlotPool.retire, live]) before
  | release k v member =>
      refine ⟨{(k, v)}, 0, (p.vacate k).occupied, ?_, (zero_add _).symm, by simp [PoolCall.handle?], by simp⟩
      exact vacate_occupied k p v member

theorem calls_aside (p next : SlotPool α) (c : PoolCall α) (answer : PoolAnswer α) (calls : p.Calls c answer next)
    (sound : p.Sound) (h : Handle) (v : Option α) (other : c.handle? ≠ some h) (member : (h, v) ∈ p.occupied) :
    (h, v) ∈ next.occupied := by
  obtain ⟨old, new, rest, before, after, own, -⟩ := calls_occupied p next c answer calls sound
  rw [before, Multiset.mem_add] at member
  rw [after, Multiset.mem_add]
  exact .inr (member.resolve_left fun gone => other (own _ gone))

theorem calls_fresh (p next : SlotPool α) (c : PoolCall α) (answer : PoolAnswer α) (calls : p.Calls c answer next)
    (sound : p.Sound) (h : Handle) (v : Option α) (other : c.handle? ≠ some h) (fresh : answer ≠ .granted h)
    (member : (h, v) ∈ next.occupied) : (h, v) ∈ p.occupied := by
  obtain ⟨old, new, rest, before, after, -, added⟩ := calls_occupied p next c answer calls sound
  rw [after, Multiset.mem_add] at member
  rw [before, Multiset.mem_add]
  exact .inr (member.resolve_left fun here => (added _ here).elim other fresh)

/-- What became of the value `a` since it was stored under `h`. -/
inductive Fate (h : Handle) (a : α) (since : PoolHistory α) (p : SlotPool α) : Prop
  | held (first : since.allocations h.slot = 0) (stored : (h, some a) ∈ p.occupied) (untaken : since.taken h = [])
      (kept : h ∉ since.releases)
  | retiring (first : since.allocations h.slot = 0) (stored : (h, none) ∈ p.occupied) (taken : since.taken h = [a])
      (kept : h ∉ since.releases)
  | released (gone : ∀ v, (h, v) ∉ p.occupied) (taken : since.taken h = [a]) (given : h ∈ since.releases)

structure Silent (h : Handle) (x : PoolCall α × PoolAnswer α) : Prop where
  slot : allocations h.slot [x] = 0
  takes : taken h [x] = []
  gives : h ∉ releases [x]

theorem fate_silent (p next : SlotPool α) (h : Handle) (a : α) (since : PoolHistory α) (x : PoolCall α × PoolAnswer α)
    (fate : p.Fate h a since) (silent : Silent h x) (same : ∀ v, (h, v) ∈ next.occupied ↔ (h, v) ∈ p.occupied) :
    next.Fate h a (since ++ [x]) := by
  have taken : PoolHistory.taken h (since ++ [x]) = since.taken h := by rw [taken_append, silent.takes, List.append_nil]
  have slot : allocations h.slot (since ++ [x]) = since.allocations h.slot := by
    rw [allocations_append, silent.slot, Nat.add_zero]
  have gives : h ∈ releases (since ++ [x]) ↔ h ∈ since.releases := by
    rw [releases_append, List.mem_append, or_iff_left silent.gives]
  cases fate with
  | held first stored untaken kept =>
      exact .held (slot.trans first) ((same _).mpr stored) (taken.trans untaken) fun given => kept (gives.mp given)
  | retiring first stored once kept =>
      exact .retiring (slot.trans first) ((same _).mpr stored) (taken.trans once) fun given => kept (gives.mp given)
  | released gone once given =>
      exact .released (fun v member => gone v ((same v).mp member)) (taken.trans once) (gives.mpr given)

theorem fate_grant (p next : SlotPool α) (k h : Handle) (a b : α) (since : PoolHistory α) (sound : p.Sound)
    (fate : p.Fate h a since) (allocated : p.allocate b = some (k, next))
    (generation : p.generation? h.slot = some (h.generation + UInt32.ofNat (since.allocations h.slot)))
    (few : allocations h.slot (since ++ [(.allocate b, .granted k)]) < generations) :
    next.Fate h a (since ++ [(.allocate b, .granted k)]) := by
  obtain ⟨g, place, bumped, -⟩ := allocate_place b p next k sound allocated
  have calls : p.Calls (.allocate b) (.granted k) next := .grant b k next allocated
  have again : k ≠ h → ∀ v, (h, v) ∈ next.occupied ↔ (h, v) ∈ p.occupied := fun apart v =>
    ⟨calls_fresh p next _ _ calls sound h v (by simp [PoolCall.handle?]) (by simp [apart]),
      calls_aside p next _ _ calls sound h v (by simp [PoolCall.handle?])⟩
  by_cases here : k.slot = h.slot
  · -- Its slot is handed out again: it was vacant, so `h` was given back before.
    have vacant : ∀ v, (h, v) ∉ p.occupied := by
      intro v member
      have occupant := ((mem_occupied_generation h v p).mp member).1
      rw [SlotPool.occupant, ← here, place] at occupant
      cases v <;> cases occupant
    cases fate with
    | held _ stored => exact absurd stored (vacant _)
    | retiring _ stored => exact absurd stored (vacant _)
    | released gone once given =>
        have apart : k ≠ h := by
          rintro rfl
          rw [generation?, place, Option.map_some, Option.some.injEq] at generation
          have older : g = k.generation + UInt32.ofNat (since.allocations k.slot) := generation
          rw [allocations_append, show allocations k.slot [(PoolCall.allocate b, PoolAnswer.granted k)] = 1 from
            by simp [allocations, grants, grant?]] at few
          rw [older, UInt32.add_assoc, UInt32.left_eq_add] at bumped
          have wrapped := (generation_zero (since.allocations k.slot + 1)).mp (by rw [UInt32.ofNat_add]; exact bumped)
          rw [Nat.mod_eq_of_lt few] at wrapped
          exact Nat.succ_ne_zero _ wrapped
        refine .released (fun v member => gone v ((again apart v).mp member)) ?_ ?_
        · rw [taken_append, once]
          rfl
        · rw [releases_append]
          exact List.mem_append_left _ given
  · have silent : Silent h ((.allocate b, .granted k) : PoolCall α × PoolAnswer α) := by
      refine ⟨?_, rfl, List.not_mem_nil⟩
      simp [allocations, grants, grant?, here]
    exact fate_silent p next h a since _ fate silent (again fun same => here (congrArg Handle.slot same))

theorem fate_retire (p : SlotPool α) (h : Handle) (a b : α) (since : PoolHistory α) (fate : p.Fate h a since)
    (live : p.state? h = some (.live b)) : (p.put h .retiring).Fate h a (since ++ [(.retire h, .retired (some b))]) := by
  have stored : (h, some b) ∈ p.occupied := (mem_occupied h (some b) p).mpr live
  cases fate with
  | held first found untaken kept =>
      cases p.occupied_unique h _ _ stored found
      refine .retiring ?_ ((mem_occupied h none _).mpr (state_put p h _ .retiring live)) ?_ ?_
      · rw [allocations_append, first]
        rfl
      · rw [taken_append, untaken]
        simp [PoolHistory.taken, yields, yield?]
      · rw [releases_append]
        simpa [releases, release?] using kept
  | retiring _ found => cases p.occupied_unique h _ _ stored found
  | released gone => exact absurd stored (gone _)

theorem fate_release (p : SlotPool α) (h : Handle) (a : α) (v : Option α) (since : PoolHistory α) (fate : p.Fate h a since)
    (place : (h, v) ∈ p.occupied) : (p.vacate h).Fate h a (since ++ [(.release h, .released v)]) := by
  have gone : ∀ w, (h, w) ∉ (p.vacate h).occupied := by
    intro w member
    have reads := (mem_occupied h w _).mp member
    rw [state_vacate h p v place] at reads
    cases w <;> cases reads
  have given : h ∈ releases (since ++ [(.release h, .released v)]) := by
    rw [releases_append]
    simp [releases, release?]
  refine .released gone ?_ given
  rw [taken_append]
  cases fate with
  | held first found untaken kept =>
      cases p.occupied_unique h _ _ place found
      rw [untaken]
      simp [PoolHistory.taken, yields, yield?]
  | retiring first found once kept =>
      cases p.occupied_unique h _ _ place found
      rw [once]
      simp [PoolHistory.taken, yields, yield?]
  | released none => exact absurd place (none _)

theorem fate_step (p next : SlotPool α) (c : PoolCall α) (answer : PoolAnswer α) (calls : p.Calls c answer next) (h : Handle)
    (a : α) (since : PoolHistory α) (sound : p.Sound) (fate : p.Fate h a since)
    (generation : p.generation? h.slot = some (h.generation + UInt32.ofNat (since.allocations h.slot)))
    (few : allocations h.slot (since ++ [(c, answer)]) < generations) : next.Fate h a (since ++ [(c, answer)]) := by
  have aside : c.handle? ≠ some h → answer ≠ .granted h → ∀ v, (h, v) ∈ next.occupied ↔ (h, v) ∈ p.occupied :=
    fun other fresh v => ⟨calls_fresh p next c answer calls sound h v other fresh, calls_aside p next c answer calls sound h v other⟩
  cases calls with
  | exhausted | read | spent | stale =>
      exact fate_silent p p h a since _ fate ⟨rfl, rfl, List.not_mem_nil⟩ fun v => Iff.rfl
  | grant b k next allocated => exact fate_grant p next k h a b since sound fate allocated generation few
  | retire k b live =>
      by_cases own : k = h
      · subst own
        exact fate_retire p k a b since fate live
      · refine fate_silent p _ h a since _ fate ⟨rfl, ?_, List.not_mem_nil⟩ (aside (by simpa [PoolCall.handle?]) (by simp))
        simp [PoolHistory.taken, yields, yield?, own]
  | release k v place =>
      by_cases own : k = h
      · subst own
        exact fate_release p k a v since fate place
      · refine fate_silent p _ h a since _ fate ⟨rfl, ?_, ?_⟩ (aside (by simpa [PoolCall.handle?]) (by simp))
        · cases v <;> simp [PoolHistory.taken, yields, yield?, own]
        · simpa [releases, release?] using Ne.symm own

theorem fate_after (later : List (PoolCall α)) (p : SlotPool α) (h : Handle) (a : α) (sound : p.Sound)
    (stored : (h, some a) ∈ p.occupied) (few : allocations h.slot (p.answers later) < generations) :
    (p.after later).Fate h a (p.answers later) := by
  induction later using List.reverseRecOn with
  | nil => exact .held rfl stored rfl List.not_mem_nil
  | append_singleton later c ih =>
      have split : p.answers (later ++ [c]) = p.answers later ++ [(c, ((p.after later).call c).1)] := answers_append later [c] p
      rw [split] at few ⊢
      have before : allocations h.slot (p.answers later) < generations := by
        rw [allocations_append] at few
        exact Nat.lt_of_le_of_lt (Nat.le_add_right _ _) few
      have generation := after_generation later p sound h.slot
      rw [((mem_occupied_generation h _ p).mp stored).2, Option.map_some] at generation
      rw [after_append]
      exact fate_step _ _ c _ (call_cases c _) h a _ (after_sound later p sound).1 (ih before) generation few

def stored (p : SlotPool α) : Multiset (Handle × α) := p.occupied.filterMap fun x => x.2.map (x.1, ·)

theorem calls_balance (p next : SlotPool α) (c : PoolCall α) (answer : PoolAnswer α) (calls : p.Calls c answer next)
    (sound : p.Sound) : p.stored + (grants [(c, answer)] : Multiset (Handle × α)) = yields [(c, answer)] + next.stored := by
  cases calls with
  | exhausted | read | spent | stale => exact (add_zero p.stored).trans (zero_add p.stored).symm
  | grant a k next allocated =>
      simp [stored, (allocate_cases a p next k sound allocated).2, grants, yields, grant?, yield?, add_comm]
  | retire k a live =>
      obtain ⟨rest, before⟩ := Multiset.exists_cons_of_mem ((mem_occupied k (some a) p).mpr live)
      have after := retire_occupied k p _ a rest (by rw [SlotPool.retire, live]) before
      simp [stored, before, after, grants, yields, grant?, yield?]
  | release k v member =>
      rw [stored, vacate_occupied k p v member]
      cases v with
      | none =>
          rw [Multiset.filterMap_cons_none _ _ rfl]
          exact (add_zero (p.vacate k).stored).trans (zero_add (p.vacate k).stored).symm
      | some a => simp [stored, grants, yields, grant?, yield?]

theorem after_balance (calls : List (PoolCall α)) (p : SlotPool α) (sound : p.Sound) :
    p.stored + ((p.answers calls).grants : Multiset (Handle × α)) = (p.answers calls).yields + (p.after calls).stored := by
  induction calls generalizing p with
  | nil => simp [answers, grants, yields, after]
  | cons c rest ih =>
      have step := call_cases c p
      have one := calls_balance p _ c _ step sound
      have later := ih _ (calls_sound p _ c _ step sound)
      have granted := grants_append [(c, (p.call c).1)] ((p.call c).2.answers rest)
      have yielded := yields_append [(c, (p.call c).1)] ((p.call c).2.answers rest)
      calc p.stored + ((p.answers (c :: rest)).grants : Multiset (Handle × α))
          = p.stored + (grants [(c, (p.call c).1)] : Multiset (Handle × α)) + ((p.call c).2.answers rest).grants := by
            rw [add_assoc, Multiset.coe_add, ← granted]
            rfl
        _ = yields [(c, (p.call c).1)] + ((p.call c).2.stored + (((p.call c).2.answers rest).grants : Multiset (Handle × α))) := by
            rw [one, add_assoc]
        _ = yields [(c, (p.call c).1)] + (((p.call c).2.answers rest).yields + (p.after (c :: rest)).stored) := by
            rw [later]
            rfl
        _ = (p.answers (c :: rest)).yields + (p.after (c :: rest)).stored := by
            rw [← add_assoc, Multiset.coe_add, ← yielded]
            rfl

theorem retire_reaches (k : Handle) (a : α) (p : SlotPool α) :
    (∃ next, p.retire k = some (a, next) ∧ next.occupant k.slot = some .retiring) ↔ (k, some a) ∈ p.occupied := by
  constructor
  · rintro ⟨next, retired, -⟩
    exact (mem_occupied k (some a) p).mpr (retire_cases k p next a retired).1
  · intro member
    refine ⟨_, retire_live k p a ((mem_occupied_live? k a p).mp member), ?_⟩
    have emptied := state_put p k _ .retiring ((mem_occupied k (some a) p).mp member)
    exact ((mem_occupied_generation k none _).mp ((mem_occupied k none _).mpr emptied)).1

theorem release_reaches (k : Handle) (v : Option α) (p : SlotPool α) :
    (∃ next, p.release k = .ok (v, next) ∧ next.occupant k.slot = some .vacant) ↔ (k, v) ∈ p.occupied := by
  constructor
  · rintro ⟨next, released, -⟩
    exact released_member k p next v released
  · intro member
    refine ⟨_, release_member k p v member, ?_⟩
    have place := (state_place k _ _).mp (state_vacate k p v member)
    rw [Array.getElem?_toList] at place
    rw [occupant, place]
    rfl

theorem fate_kept (p : SlotPool α) (h : Handle) (a : α) (since : PoolHistory α) (fate : p.Fate h a since) :
    (∃ v, (h, v) ∈ p.occupied) ↔ h ∉ since.releases := by
  cases fate with
  | held _ stored _ kept => exact ⟨fun _ => kept, fun _ => ⟨_, stored⟩⟩
  | retiring _ stored _ kept => exact ⟨fun _ => kept, fun _ => ⟨_, stored⟩⟩
  | released gone _ given => exact ⟨fun ⟨v, member⟩ => absurd member (gone v), fun kept => absurd given kept⟩

theorem fate_taken (p : SlotPool α) (h : Handle) (a : α) (since : PoolHistory α) (fate : p.Fate h a since) :
    since.taken h = [] ∧ p.live? h = some a ∨ since.taken h = [a] ∧ p.live? h = none := by
  have gone : (∀ b, (h, some b) ∉ p.occupied) → p.live? h = none := fun none =>
    Option.eq_none_iff_forall_ne_some.mpr fun b live => none b ((mem_occupied_live? h b p).mpr live)
  cases fate with
  | held _ stored untaken _ => exact .inl ⟨untaken, (mem_occupied_live? h a p).mp stored⟩
  | retiring _ stored taken _ =>
      exact .inr ⟨taken, gone fun b member => nomatch p.occupied_unique h _ _ stored member⟩
  | released none taken _ => exact .inr ⟨taken, gone fun b => none _⟩

theorem reaches_after (later : List (PoolCall α)) (p : SlotPool α) (h : Handle) (a : α) (v : Option α) (sound : p.Sound)
    (place : (h, some a) ∈ p.occupied) :
    (h, v) ∈ (p.after later).occupied ↔ (p.after later).occupant h.slot = some (holdingState v) ∧
      allocations h.slot (p.answers later) % generations = 0 := by
  have generation := after_generation later p sound h.slot
  rw [((mem_occupied_generation h _ p).mp place).2, Option.map_some] at generation
  rw [mem_occupied_generation, generation, Option.some.injEq, UInt32.add_eq_left, generation_zero]

theorem grant_occupied (a : α) (p : SlotPool α) (h : Handle) (sound : p.Sound) (granted : (p.call (.allocate a)).1 = .granted h) :
    (h, some a) ∈ (p.call (.allocate a)).2.occupied := by
  have step := call_cases (.allocate a) p
  rw [granted] at step
  generalize (p.call (.allocate a)).2 = next at step ⊢
  cases step with
  | grant _ _ _ allocated =>
      rw [(allocate_cases a p next h sound allocated).2]
      exact Multiset.mem_cons_self _ _

theorem mod_eq_add (m w : Nat) : (m + w) % generations = m % generations ↔ w % generations = 0 := by
  unfold generations
  omega

/-- Whatever is called on a pool after it handed out `h` for the value `a`: `h` reaches what its slot holds exactly
if the slot is not vacant and was last handed out in the same generation. Until the slot was handed out in all
generations again, `h` is honoured until it is released, and `a` is taken out once under it or is still there. No
call under another handle touches what `h` reaches, and no value given to the pool is lost, doubled or swapped. -/
theorem handle_reaches_own (n : Nat) (first : SlotPool α) (before later : List (PoolCall α)) (a : α) (h : Handle)
    (created : create n = .ok first) (granted : ((first.after before).call (.allocate a)).1 = .granted h) :
    let past := first.answers (before ++ [.allocate a])
    let since := (first.after (before ++ [.allocate a])).answers later
    let whole := first.answers (before ++ .allocate a :: later)
    let p := first.after (before ++ .allocate a :: later)
    (∀ v, p.live? h = some v ↔ p.occupant h.slot = some (.live v) ∧
      whole.allocations h.slot % generations = past.allocations h.slot % generations) ∧
    (∀ v, (∃ next, p.retire h = some (v, next) ∧ next.occupant h.slot = some .retiring) ↔
      p.occupant h.slot = some (.live v) ∧
        whole.allocations h.slot % generations = past.allocations h.slot % generations) ∧
    (∀ v, (∃ next, p.release h = .ok (v, next) ∧ next.occupant h.slot = some .vacant) ↔
      p.occupant h.slot = some (holdingState v) ∧
        whole.allocations h.slot % generations = past.allocations h.slot % generations) ∧
    (since.allocations h.slot < generations →
      ((∃ v next, p.release h = .ok (v, next)) ↔ h ∉ since.releases) ∧
        (since.taken h = [] ∧ p.live? h = some a ∨ since.taken h = [a] ∧ p.live? h = none)) ∧
    (∀ c v, c.handle? ≠ some h → p.state? h = some (holdingState v) → (p.call c).2.state? h = some (holdingState v)) ∧
    (whole.grants : Multiset (Handle × α)) = whole.yields + p.stored := by
  intro past since whole p
  obtain rfl : ofCapacity n = first := by
    unfold create at created
    split at created
    · exact Except.ok.inj created
    · cases created
  have sound := fun calls => (after_sound calls (ofCapacity n : SlotPool α) (sound_ofCapacity n)).1
  have split : before ++ .allocate a :: later = (before ++ [.allocate a]) ++ later := List.append_cons _ _ _
  have place : (h, some a) ∈ ((ofCapacity n).after (before ++ [.allocate a])).occupied := by
    rw [after_append]
    exact grant_occupied a _ h (sound before) granted
  have state : p = ((ofCapacity n).after (before ++ [.allocate a])).after later := by
    rw [← after_append, ← split]
  have joined : whole = past ++ since := by
    change (ofCapacity n).answers (before ++ .allocate a :: later) = _
    rw [split, answers_append]
  have reaches : ∀ v, (h, v) ∈ p.occupied ↔ p.occupant h.slot = some (holdingState v) ∧
      whole.allocations h.slot % generations = past.allocations h.slot % generations := by
    intro v
    rw [joined, allocations_append, mod_eq_add, state]
    exact reaches_after later _ h a v (sound _) place
  refine ⟨fun v => ?_, fun v => ?_, fun v => ?_, fun few => ?_, fun c v other reads => ?_, ?_⟩
  · rw [← mem_occupied_live?]
    exact reaches (some v)
  · rw [retire_reaches]
    exact reaches (some v)
  · rw [release_reaches]
    exact reaches v
  · have fate : p.Fate h a since := state ▸ fate_after later _ h a (sound _) place few
    refine ⟨(Iff.trans ?_ (fate_kept p h a since fate)), fate_taken p h a since fate⟩
    exact exists_congr fun v =>
      ⟨fun ⟨next, released⟩ => released_member h p next v released, fun member => ⟨_, release_member h p v member⟩⟩
  · have calls := call_cases c p
    exact (mem_occupied h v _).mp (calls_aside p _ c _ calls (sound _) h v other ((mem_occupied h v p).mpr reads))
  · have balance := after_balance (before ++ .allocate a :: later) (ofCapacity n) (sound_ofCapacity n)
    rw [stored, occupied_ofCapacity, Multiset.filterMap_zero, zero_add] at balance
    exact balance

def regrant : List (PoolCall Nat) := [.release ⟨0, 1⟩, .allocate 8, .retire ⟨0, 1⟩]

theorem regranted_handle_apart :
    create 1 = .ok (ofCapacity 1 : SlotPool Nat) ∧ (((ofCapacity 1).after []).call (.allocate 7)).1 = .granted ⟨0, 1⟩ ∧
      ((ofCapacity 1).after (.allocate 7 :: regrant)).occupant 0 = some (.live 8) ∧
      ((ofCapacity 1).after (.allocate 7 :: regrant)).live? ⟨0, 1⟩ ≠ some 8 ∧
      taken ⟨0, 1⟩ (((ofCapacity 1).after [.allocate 7]).answers regrant) = [7] ∧
      (((ofCapacity 1).answers (.allocate 7 :: regrant)).grants : Multiset (Handle × Nat)) =
        ((ofCapacity 1).answers (.allocate 7 :: regrant)).yields + ((ofCapacity 1).after (.allocate 7 :: regrant)).stored := by
  have created : create 1 = .ok (ofCapacity 1 : SlotPool Nat) := rfl
  have granted : (((ofCapacity 1).after []).call (.allocate 7)).1 = .granted ⟨0, 1⟩ := rfl
  obtain ⟨live, -, -, once, -, balance⟩ := handle_reaches_own 1 _ [] regrant 7 ⟨0, 1⟩ created granted
  refine ⟨created, granted, rfl, fun reads => absurd ((live 8).mp reads).2 (by decide), ?_, balance⟩
  rcases (once (by decide)).2 with ⟨untaken, -⟩ | ⟨taken, -⟩
  · exact absurd untaken (by decide)
  · exact taken

end SlotPool

end HubRelay
