import HubRelay.Proofs.Relay.Precedence

/-! Payloads that are handed back to one loop come back in the order in which their messages were sent: the link is done
with messages in that order, whatever becomes of them, and a loop takes up what it was handed as it was handed over. -/

set_option autoImplicit false

namespace HubRelay

def Happening.handedTo? (i : Nat) : Happening → Option Nat
  | .completed n (.handed j) => if j = i then some n else none
  | _ => none

theorem Happening.handedTo_cases (i n : Nat) (x : Happening) (handed : x.handedTo? i = some n) :
    x = .completed n (.handed i) := by
  unfold handedTo? at handed
  split at handed
  · split at handed
    · next here =>
        cases handed
        rw [here]
    · cases handed
  · cases handed

theorem Happening.freed_cases (x : Happening) (n : Nat) (freed : x.freed? = some n) :
    ∃ callback payload, x = .freed n callback payload := by
  unfold freed? at freed
  split at freed
  · cases freed
    exact ⟨_, _, rfl⟩
  · cases freed

def Errand.returned? (x : Errand) : Option Nat := x.pledge?.map (·.1)

namespace Docket

variable {left : Nat → Prop} {loose : Prop} {d d' : Docket}

def completions (d : Docket) : List Nat := d.told.filterMap Happening.completed?

def takes (d : Docket) : List Nat := d.completions.reverse ++ d.waiting

structure Served (left : Nat → Prop) (d : Docket) : Prop where
  numbered : d.Numbered
  order : d.takes.Pairwise fun n m => left n → left m → n < m
  next : ∀ n, d.serial = some n → ∀ m ∈ d.takes, left m → m < n

theorem served_less (served : d.Served left) (numbered : d'.Numbered) (less : d'.takes.Sublist d.takes)
    (serial : ∀ n, d'.serial = some n → ∃ m, d.serial = some m ∧ m ≤ n) : d'.Served left where
  numbered := numbered
  order := served.order.sublist less
  next n later m taken own := by
    obtain ⟨n', now, most⟩ := serial n later
    exact (served.next n' now m (less.subset taken) own).trans_le most

theorem served_more (n : Nat) (served : d.Served left) (numbered : d'.Numbered) (serial : d.serial = some n)
    (takes : d'.takes = d.takes ++ [n]) (passed : d'.serial = some (n + 1)) : d'.Served left := by
  have before := served.next n serial
  refine ⟨numbered, ?_, fun later same m taken own => ?_⟩
  · rw [takes]
    refine List.pairwise_append.mpr ⟨served.order, List.pairwise_singleton _ n, fun m taken x last own _ => ?_⟩
    rw [List.mem_singleton.mp last]
    exact before m taken own
  · cases passed.symm.trans same
    rw [takes] at taken
    rcases List.mem_append.mp taken with old | last
    · exact (before m old own).trans (Nat.lt_succ_self n)
    · rw [List.mem_singleton.mp last]
      exact Nat.lt_succ_self n

theorem served_done (n : Nat) (w : List Nat) (served : d.Served left) (numbered : d'.Numbered) (less : w.Sublist d.waiting)
    (turn : left n → (n :: w).Sublist d.waiting) (completions : d'.completions = n :: d.completions) (waiting : d'.waiting = w)
    (serial : d'.serial = d.serial) : d'.Served left := by
  have takes : d'.takes = d.completions.reverse ++ n :: w := by
    rw [Docket.takes, completions, waiting, List.reverse_cons, List.append_assoc]
    rfl
  by_cases own : left n
  · refine served_less served numbered ?_ fun m same => ⟨m, serial.symm.trans same, Nat.le_refl m⟩
    rw [takes]
    exact (List.Sublist.refl _).append (turn own)
  · have kept : (d.completions.reverse ++ w).Sublist d.takes := (List.Sublist.refl _).append less
    obtain ⟨done, rest, apart⟩ := List.pairwise_append.mp (served.order.sublist kept)
    refine ⟨numbered, ?_, fun m same m' taken own' => ?_⟩
    · rw [takes]
      refine List.pairwise_append.mpr ⟨done, List.pairwise_cons.mpr ⟨fun _ _ own' => absurd own' own, rest⟩, ?_⟩
      exact fun m early => List.forall_mem_cons.mpr ⟨fun _ own' => absurd own' own, apart m early⟩
    · rw [takes] at taken
      refine served.next m (serial.symm.trans same) m' (kept.subset ?_) own'
      rcases List.mem_append.mp taken with early | late
      · exact List.mem_append_left _ early
      · refine List.mem_append_right _ ((List.mem_cons.mp late).resolve_left ?_)
        rintro rfl
        exact own own'

theorem advance_served (advance : Advance left loose d d') (served : d.Served left) : d'.Served left := by
  have numbered := advance_numbered advance served.numbered
  have still : ∀ n, d.serial = some n → ∃ m, d.serial = some m ∧ m ≤ n := fun n same => ⟨n, same, Nat.le_refl n⟩
  have passed : ∀ n, d.serial = some n → ∀ m, some (n + 1) = some m → ∃ k, d.serial = some k ∧ k ≤ m := by
    intro n serial m same
    cases same
    exact ⟨n, serial, Nat.le_succ n⟩
  cases advance with
  | ease eases =>
      refine served_less served numbered ?_ fun n serial => ?_
      · have told : d'.completions = d.completions := congrArg (List.filterMap _) eases.told
        rw [takes, told]
        exact (List.Sublist.refl _).append eases.waiting
      · rcases eases.serial with same | gone
        · exact still n (same.symm.trans serial)
        · cases gone.symm.trans serial
  | spend n serial => exact served_less served numbered (.refl _) (passed n serial)
  | send n badge dispatch k serial => exact served_more n served numbered serial (List.append_assoc _ _ _).symm rfl
  | deliver n a i badge k e serial => exact served_less served numbered (.refl _) (passed n serial)
  | putOff n a k serial => exact served_less served numbered (.refl _) (passed n serial)
  | complete n fate w ended less turn => exact served_done n w served numbered less turn rfl rfl rfl
  | hand n i k callback payload w attached less turn => exact served_done n w served numbered less turn rfl rfl rfl
  | repost | post | skip | pass | free | letGo => exact served_less served numbered (.refl _) still

def handsOn (i : Nat) (d : Docket) : List Nat := d.told.filterMap (Happening.handedTo? i)

def returns (d : Docket) : Nat → List Nat := lane Errand.returned? d.work

def frees (d : Docket) : List Nat := d.told.filterMap Happening.freed?

-- Of what the loop was handed, the latest waits there, or was lost as the loop was let go. The rest is `past`.
def Owing (i : Nat) (past : List Nat) (d : Docket) : Prop :=
  ∃ due, d.handsOn i = due.reverse ++ past ∧ (due = d.returns i ∨ d.returns i = [] ∧ d.attached i = false)

structure Returned (past : Nat → List Nat) (d : Docket) : Prop where
  owing : ∀ i, d.Owing i (past i)
  called : ∀ i, (past i).Sublist d.frees
  reached : ∀ n ∈ d.frees, ∃ i, n ∈ past i

variable {past : Nat → List Nat}

theorem owing_kept (i : Nat) (past : List Nat) (owing : d.Owing i past) (hands : d'.handsOn i = d.handsOn i)
    (returns : d'.returns i = d.returns i) (attached : d'.attached i = true → d.attached i = true) : d'.Owing i past := by
  obtain ⟨due, order, waits⟩ := owing
  refine ⟨due, hands.trans order, ?_⟩
  rw [returns]
  refine waits.imp_right fun lost => ⟨lost.1, Bool.eq_false_iff.mpr fun taking => ?_⟩
  rw [attached taking] at lost
  cases lost.2

theorem returned_kept (returned : d.Returned past) (hands : ∀ i, d'.handsOn i = d.handsOn i) (returns : d'.returns = d.returns)
    (frees : d'.frees = d.frees) (attached : ∀ i, d'.attached i = true → d.attached i = true) : d'.Returned past where
  owing i := owing_kept i (past i) (returned.owing i) (hands i) (congrFun returns i) (attached i)
  called i := by
    rw [frees]
    exact returned.called i
  reached := by
    rw [frees]
    exact returned.reached

theorem hand_returned (n j : Nat) (returned : d.Returned past) (attached : d.attached j = true)
    (hands : ∀ i, d'.handsOn i = if i = j then n :: d.handsOn i else d.handsOn i)
    (waits : ∀ i, d'.returns i = if i = j then d.returns i ++ [n] else d.returns i) (frees : d'.frees = d.frees)
    (same : d'.attached = d.attached) : d'.Returned past := by
  refine ⟨fun i => ?_, fun i => ?_, ?_⟩
  · by_cases here : i = j
    · obtain ⟨due, order, left⟩ := returned.owing i
      have queued : due = d.returns i := by
        refine left.resolve_right fun lost => ?_
        rw [here, attached] at lost
        cases lost.2
      refine ⟨d.returns i ++ [n], ?_, .inl (by rw [waits i, if_pos here])⟩
      rw [hands i, if_pos here, order, queued, List.reverse_append]
      rfl
    · exact owing_kept i (past i) (returned.owing i) ((hands i).trans (if_neg here)) ((waits i).trans (if_neg here)) fun taking =>
        same ▸ taking
  · rw [frees]
    exact returned.called i
  · rw [frees]
    exact returned.reached

theorem free_returned (n j : Nat) (returned : d.Returned past) (hands : ∀ i, d'.handsOn i = d.handsOn i)
    (waits : ∀ i, d.returns i = if i = j then n :: d'.returns i else d'.returns i) (frees : d'.frees = n :: d.frees)
    (same : d'.attached = d.attached) : d'.Returned (Function.update past j (n :: past j)) := by
  refine ⟨fun i => ?_, fun i => ?_, ?_⟩
  · by_cases here : i = j
    · subst here
      obtain ⟨due, order, left⟩ := returned.owing i
      have next : d.returns i = n :: d'.returns i := (waits i).trans (if_pos rfl)
      have queued : due = d.returns i := by
        refine left.resolve_right fun lost => ?_
        rw [next] at lost
        cases lost.1
      refine ⟨d'.returns i, ?_, .inl rfl⟩
      rw [hands i, order, queued, next, Function.update_self, List.reverse_cons, List.append_assoc]
      rfl
    · rw [Function.update_of_ne here]
      exact owing_kept i (past i) (returned.owing i) (hands i) ((waits i).trans (if_neg here)).symm fun taking => same ▸ taking
  · rw [frees]
    by_cases here : i = j
    · rw [here, Function.update_self]
      exact (returned.called j).cons_cons n
    · rw [Function.update_of_ne here]
      exact (returned.called i).cons n
  · rw [frees]
    refine List.forall_mem_cons.mpr ⟨⟨j, by rw [Function.update_self]; exact List.mem_cons_self⟩, fun m old => ?_⟩
    obtain ⟨i, member⟩ := returned.reached m old
    refine ⟨i, ?_⟩
    by_cases here : i = j
    · subst here
      rw [Function.update_self]
      exact List.mem_cons_of_mem n member
    · rw [Function.update_of_ne here]
      exact member

theorem letGo_returned (j : Nat) (returned : d.Returned past) (hands : ∀ i, d'.handsOn i = d.handsOn i)
    (waits : ∀ i, d'.returns i = if i = j then [] else d.returns i) (frees : d'.frees = d.frees)
    (attached : d'.attached = Function.update d.attached j false) : d'.Returned past := by
  refine ⟨fun i => ?_, fun i => ?_, ?_⟩
  · by_cases here : i = j
    · obtain ⟨due, order, -⟩ := returned.owing i
      refine ⟨due, (hands i).trans order, .inr ⟨(waits i).trans (if_pos here), ?_⟩⟩
      rw [attached, here, Function.update_self]
    · refine owing_kept i (past i) (returned.owing i) (hands i) ((waits i).trans (if_neg here)) fun taking => ?_
      rw [attached, Function.update_of_ne here] at taking
      exact taking
  · rw [frees]
    exact returned.called i
  · rw [frees]
    exact returned.reached

theorem advance_returned (advance : Advance left loose d d') (returned : ∃ past, d.Returned past) : ∃ past, d'.Returned past := by
  obtain ⟨past, returned⟩ := returned
  have same : ∀ i, d.attached i = true → d.attached i = true := fun _ => id
  cases advance with
  | ease eases =>
      have told : ∀ f : Happening → Option Nat, d'.told.filterMap f = d.told.filterMap f := fun f => by rw [eases.told]
      refine ⟨past, returned_kept returned (fun i => told _) ?_ (told _) eases.attached⟩
      rw [returns, returns, eases.work]
  | spend | send => exact ⟨past, returned_kept returned (fun _ => rfl) rfl rfl same⟩
  | complete n fate w ended less turn =>
      refine ⟨past, returned_kept returned (fun i => ?_) rfl rfl same⟩
      refine List.filterMap_cons_none (Option.eq_none_iff_forall_ne_some.mpr fun m handed => ?_)
      cases Happening.handedTo_cases i m _ handed
      exact ended i rfl
  | deliver n a i badge k e serial =>
      exact ⟨past, returned_kept returned (fun _ => rfl) (lane_push_silent rfl) rfl same⟩
  | putOff n a k serial => exact ⟨past, returned_kept returned (fun _ => rfl) (lane_push_silent rfl) rfl same⟩
  | hand n j k callback payload w attached less turn =>
      refine ⟨past, hand_returned n j returned attached (fun i => ?_) (lane_push rfl) rfl rfl⟩
      split
      · next here => exact List.filterMap_cons_some (if_pos here.symm)
      · next apart => exact List.filterMap_cons_none (if_neg (Ne.symm apart))
  | repost j n k rest i e badge first =>
      exact ⟨past, returned_kept returned (fun _ => rfl) ((lane_push_silent rfl).trans (lane_pop_silent first rfl)) rfl same⟩
  | post n i k e badge unasked => exact ⟨past, returned_kept returned (fun _ => rfl) (lane_push_silent rfl) rfl same⟩
  | skip j x rest first idle =>
      have silent : x.returned? = none := by rw [Errand.returned?, idle, Option.map_none]
      exact ⟨past, returned_kept returned (fun _ => rfl) (lane_pop_silent first silent) rfl same⟩
  | pass j n k e rest badge first bears =>
      exact ⟨past, returned_kept returned (fun _ => rfl) (lane_pop_silent first rfl) rfl same⟩
  | free j n k callback payload rest first =>
      exact ⟨_, free_returned n j returned (fun _ => rfl) (lane_pop first rfl) rfl rfl⟩
  | letGo j => exact ⟨past, letGo_returned j returned (fun _ => rfl) lane_clear rfl rfl⟩

theorem completions_order (n m : Nat) (served : d.Served left) (pair : [n, m].Sublist d.completions) (own : left n)
    (own' : left m) : m < n :=
  pair_related pair (List.pairwise_reverse.mp (List.pairwise_append.mp served.order).1) own' own

theorem hands_order (i n m : Nat) (served : d.Served left) (pair : [n, m].Sublist (d.handsOn i)) (own : left n)
    (own' : left m) : m < n := by
  refine completions_order n m served (pair.trans (filterMap_sublist _ _ d.told fun x n handed => ?_)) own own'
  rw [x.handedTo_cases i n handed]
  rfl

theorem hands_apart (i j n : Nat) (served : d.Served left) (own : left n) (first : n ∈ d.handsOn i) (second : n ∈ d.handsOn j) :
    i = j := by
  obtain ⟨x, told, handed⟩ := List.mem_filterMap.mp first
  obtain ⟨y, told', handed'⟩ := List.mem_filterMap.mp second
  rw [x.handedTo_cases i n handed] at told
  rw [y.handedTo_cases j n handed'] at told'
  by_contra apart
  have other : Happening.completed n (.handed i) ≠ .completed n (.handed j) := fun same => apart (by cases same; rfl)
  rcases pair_either told told' other with pair | pair
  · exact Nat.lt_irrefl n (completions_order n n served (pair_numbers pair rfl rfl) own own)
  · exact Nat.lt_irrefl n (completions_order n n served (pair_numbers pair rfl rfl) own own)

theorem freed_in_order (served : d.Served left) (returned : d.Returned past) (once : d.frees.Nodup) (n₁ n₂ i : Nat)
    (order : n₁ < n₂) (own : left n₁ ∧ left n₂) (handed : n₁ ∈ d.handsOn i) (handed' : n₂ ∈ d.handsOn i) (x₂ : Happening)
    (told : x₂ ∈ d.told) (freed : x₂.freed? = some n₂) : ∃ x₁, x₁.freed? = some n₁ ∧ Earlier x₁ x₂ d.told := by
  obtain ⟨j, done⟩ := returned.reached n₂ (List.mem_filterMap.mpr ⟨x₂, told, freed⟩)
  have here : j = i := by
    obtain ⟨due, hands, -⟩ := returned.owing j
    exact hands_apart j i n₂ served own.2 (by rw [hands]; exact List.mem_append_right _ done) handed'
  subst here
  obtain ⟨due, hands, -⟩ := returned.owing j
  have inverted : ¬[n₁, n₂].Sublist (d.handsOn j) := fun pair =>
    Nat.lt_asymm order (hands_order j n₁ n₂ served pair own.1 own.2)
  rw [hands] at handed inverted
  -- What is not done yet was handed over after all that is.
  have done' : n₁ ∈ past j := by
    refine (List.mem_append.mp handed).resolve_left fun waits => inverted ?_
    exact (List.singleton_sublist.mpr waits).append (List.singleton_sublist.mpr done)
  have pair : [n₂, n₁].Sublist (past j) :=
    (pair_either done done' (Nat.ne_of_gt order)).resolve_right fun pair =>
      inverted (pair.trans (List.sublist_append_right _ _))
  obtain ⟨y₂, x₁, earlier, second, first⟩ := numbers_pair (pair.trans (returned.called j))
  rw [named_once once (earlier.subset List.mem_cons_self) told second freed] at earlier
  exact ⟨x₁, first, earlier⟩

end Docket

theorem Custody.called_asked {t : Custody} {size : Nat} (n : Nat) (badge : Badge) (d : Dispatch Action) (answer : Reply)
    (callback : FreeCallback Action) (payload : Payload) (sound : t.Sound size) (offered : .offered n badge d answer ∈ t.history)
    (freed : .freed n callback payload ∈ t.history) : d.free = some callback ∧ payload = d.payload := by
  obtain ⟨badge', d', answer', offered', free, same⟩ :=
    sound.answered.called (n, callback, payload) (List.mem_filterMap.mpr ⟨_, freed, rfl⟩)
  cases Custody.offered_unique sound.numbered n badge d answer _ offered offered' rfl
  exact ⟨free, same⟩

namespace Scene

theorem opens_returned (link : LinkSettings) (c : Scene) (opens : c.Opens link) (left : Nat → Prop) :
    c.stack.docket.Served left ∧ c.stack.docket.Returned fun _ => [] := by
  obtain ⟨told, waiting, work⟩ := opens_docket link c opens
  have none : ∀ f : Happening → Option Nat, c.stack.docket.told.filterMap f = [] := fun f => by rw [told]; rfl
  have takes : c.stack.docket.takes = [] := by rw [Docket.takes, Docket.completions, none, waiting]; rfl
  refine ⟨⟨opens_numbered link c opens, ?_, ?_⟩, fun i => ⟨[], none _, .inl ?_⟩, fun _ => List.nil_sublist _, ?_⟩
  · rw [takes]
    exact .nil
  · rw [takes]
    simp
  · rw [Docket.returns, Docket.lane, work i]
    rfl
  · rw [Docket.frees, none]
    simp

/-- Of two messages that the link took in and was done with, and whose payloads went back to the same loop, the one that was
sent first gets its payload back first. It does not matter how the link was done with them, nor whether the loop was closing
as it called their callbacks. Where anyone but the link completes other messages, or has any tried again, fewer messages
than a slot has generations got slots. -/
theorem callbacks_in_order (link : LinkSettings) (incidents : List Incident) (c : Scene) (opens : c.Opens link)
    (honest : ∀ x ∈ incidents, x.Honest) (sole : (∀ x ∈ incidents, x.Lawful) ∨ (c.undergo incidents).Few) (n₁ n₂ i : Nat)
    (own : c.LeftToLink n₁ incidents ∧ c.LeftToLink n₂ incidents) (b₁ b₂ : Badge) (d₁ d₂ : Dispatch Action) (k₁ k₂ : Handle)
    (f₂ : FreeCallback Action) (p₂ : Payload) :
    let history := (c.undergo incidents).stack.hub.history
    Earlier (.offered n₁ b₁ d₁ (.sent k₁)) (.offered n₂ b₂ d₂ (.sent k₂)) history →
      .completed n₁ (.handed i) ∈ history → .completed n₂ (.handed i) ∈ history → .freed n₂ f₂ p₂ ∈ history →
        d₂.free = some f₂ ∧ p₂ = d₂.payload ∧
          ∃ f₁, d₁.free = some f₁ ∧ Earlier (.freed n₁ f₁ d₁.payload) (.freed n₂ f₂ p₂) history := by
  intro history sent first second freed
  obtain ⟨size, opening⟩ := opens_opening link c opens
  obtain ⟨asked, lost, sound⟩ := undergo_sound size incidents c opening honest
  have frees : (history.filterMap Happening.freed?).Nodup := Custody.freed_once sound
  have clear : c.Clear incidents := by
    rcases sole with lawful | few
    · exact lawful_clear link incidents c opens lawful
    · exact few_clear link incidents c opens honest few
  obtain ⟨served, returned⟩ := opens_returned link c opens (c.LeftToLink · incidents)
  have advances := undergo_advances (c.LeftToLink · incidents) True incidents c clear
    (fun x member => ⟨honest x member, fun _ => trivial⟩) fun _ => id
  have served' := Docket.advances_invariant (Docket.Served _) advances (fun _ _ => Docket.advance_served) served
  obtain ⟨past, returned'⟩ := Docket.advances_invariant (fun d => ∃ past, d.Returned past) advances
    (fun _ _ => Docket.advance_returned) ⟨_, returned⟩
  have hands : ∀ n, .completed n (.handed i) ∈ history → n ∈ (c.undergo incidents).stack.docket.handsOn i := fun n member =>
    List.mem_filterMap.mpr ⟨_, List.mem_filter.mpr ⟨member, rfl⟩, if_pos rfl⟩
  have order := Docket.numbered_earlier _ _ n₁ n₂ served'.numbered (earlier_told _ _ history sent rfl rfl) rfl rfl
  obtain ⟨x₁, named, earlier⟩ := Docket.freed_in_order served' returned' (frees.sublist (List.filter_sublist.filterMap _)) n₁ n₂ i
    order own (hands n₁ first) (hands n₂ second) _ (List.mem_filter.mpr ⟨freed, rfl⟩) rfl
  have earlier' : Earlier x₁ (.freed n₂ f₂ p₂) history := earlier.trans List.filter_sublist
  obtain ⟨f₁, p₁, rfl⟩ := Happening.freed_cases x₁ n₁ named
  obtain ⟨free, rfl⟩ := Custody.called_asked n₁ b₁ d₁ _ f₁ p₁ sound (sent.subset (List.mem_cons_of_mem _ List.mem_cons_self))
    (earlier'.subset (List.mem_cons_of_mem _ List.mem_cons_self))
  obtain ⟨free', payload⟩ := Custody.called_asked n₂ b₂ d₂ _ f₂ p₂ sound (sent.subset List.mem_cons_self) freed
  exact ⟨free', payload, f₁, free, earlier'⟩

def sendingAs (name : String) (byte : UInt8) : Dispatch Action := ⟨name, [byte], 1, ⟨1⟩, .none, some ⟨name, []⟩, false, none⟩

def winding : List Incident :=
  [.act (.load 0 1 .none .plain), .act (.load 0 2 .none .plain), .take 0, .finish 0, .take 0, .finish 0,
    .act (.grab 0 1 (some "a")), .act (.grab 0 2 (some "b")), .act (.send (sendingAs "b" 7)), .act (.send (sendingAs "a" 8)),
    .act (.send (sendingAs "b" 9)), .act (.complete (.exact ⟨2, 1⟩)), .act (.uplink (.pump 1)), .act .shutdown, .shut 0,
    .take 0, .finish 0, .take 0, .finish 0, .take 0].map .move

theorem winding_in_order :
    small.Opens { duplicates := true } ∧ (∀ x ∈ winding, x.Honest) ∧ (small.undergo winding).Few ∧
      (small.LeftToLink 0 winding ∧ small.LeftToLink 1 winding) ∧
      let history := (small.undergo winding).stack.hub.history
      Earlier (.offered 0 ⟨2, 2, .none, 1⟩ (sendingAs "b" 7) (.sent ⟨0, 1⟩))
        (.offered 1 ⟨1, 1, .none, 0⟩ (sendingAs "a" 8) (.sent ⟨1, 1⟩)) history ∧
      .completed 0 (.handed 0) ∈ history ∧ .completed 1 (.handed 0) ∈ history ∧
      Earlier (.freed 0 ⟨"b", []⟩ [7]) (.freed 1 ⟨"a", []⟩ [8]) history := by
  have honest : ∀ x ∈ winding, x.Honest := by
    simp [winding, Incident.Honest, Move.Honest, Action.Honest]
  have told : (small.undergo winding).stack.hub.history =
      [.freed 1 ⟨"a", []⟩ [8], .freed 0 ⟨"b", []⟩ [7], .freed 2 ⟨"b", []⟩ [9], .completed 1 (.handed 0), .completed 0 (.handed 0),
        .completed 2 (.handed 0), .offered 2 ⟨2, 2, .none, 1⟩ (sendingAs "b" 9) (.sent ⟨2, 1⟩),
        .offered 1 ⟨1, 1, .none, 0⟩ (sendingAs "a" 8) (.sent ⟨1, 1⟩),
        .offered 0 ⟨2, 2, .none, 1⟩ (sendingAs "b" 7) (.sent ⟨0, 1⟩),
        .requested 0 ⟨2, 2, .none, 1⟩, .requested 0 ⟨1, 1, .none, 0⟩] := by rfl
  have few : (small.undergo winding).Few := by
    rw [Few, told]
    decide
  have own : small.LeftToLink 0 winding ∧ small.LeftToLink 1 winding := by decide +kernel
  have sent : Earlier (.offered 0 ⟨2, 2, .none, 1⟩ (sendingAs "b" 7) (.sent ⟨0, 1⟩))
      (.offered 1 ⟨1, 1, .none, 0⟩ (sendingAs "a" 8) (.sent ⟨1, 1⟩)) (small.undergo winding).stack.hub.history := by
    rw [told]
    refine .cons _ (.cons _ (.cons _ (.cons _ (.cons _ (.cons _ (.cons _ (.cons_cons _ (List.singleton_sublist.mpr ?_))))))))
    exact List.mem_cons_self
  have first : .completed 0 (.handed 0) ∈ (small.undergo winding).stack.hub.history := by
    rw [told]
    simp
  have second : .completed 1 (.handed 0) ∈ (small.undergo winding).stack.hub.history := by
    rw [told]
    simp
  obtain ⟨-, -, f₁, free, earlier⟩ := callbacks_in_order { duplicates := true } winding small small_opens honest (.inr few) 0 1 0
    own _ _ _ _ _ _ ⟨"a", []⟩ [8] sent first second (by rw [told]; simp)
  cases free
  exact ⟨small_opens, honest, few, own, sent, first, second, earlier⟩

end Scene

end HubRelay
