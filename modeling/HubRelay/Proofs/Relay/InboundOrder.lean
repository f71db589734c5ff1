import HubRelay.Proofs.Relay.Precedence

/-! Messages from the host come to a loop's nanoapps in the order in which they came in, except that one that was put off
can be overtaken by one that was delivered at once. -/

set_option autoImplicit false

namespace HubRelay

namespace Happening

def postedOn? (i : Nat) : Happening → Option Nat
  | .posted n j _ => if j = i then some n else none
  | _ => none

def passedOn? (i : Nat) : Happening → Option Nat
  | .passed j _ e => if j = i then e.serial? else none
  | _ => none

theorem postedOn_posted (i n : Nat) (x : Happening) (posted : x.postedOn? i = some n) : x.posted? = some n := by
  unfold postedOn? at posted
  split at posted
  · split at posted
    · exact posted
    · cases posted
  · cases posted

end Happening

def Errand.event? : Errand → Option Nat
  | .event _ n _ => some n
  | _ => none

namespace Docket

variable {left : Nat → Prop} {loose : Prop} {d d' : Docket}

def posts (d : Docket) : List Nat := d.told.filterMap Happening.posted?

def retries (d : Docket) : Nat → List Nat := lane Errand.retrying? d.work

def Routed (n : Nat) (routing : Routing) (d : Docket) : Prop := ∃ a, .arrived n a routing ∈ d.told

theorem routed_number (n : Nat) (routing : Routing) (routed : d.Routed n routing) : n ∈ d.numbers := by
  obtain ⟨a, told⟩ := routed
  exact List.mem_filterMap.mpr ⟨_, told, rfl⟩

-- How a message was posted that is posted now: as it came in, or before whatever waits to be tried again.
def Fits (n : Nat) (d : Docket) : Prop := d.Routed n .delivered ∨ d.Routed n .deferred ∧ ∀ m ∈ d.retries 0, n < m

def Follows (d : Docket) (later earlier : Nat) : Prop :=
  earlier < later ∨ d.Routed earlier .delivered ∧ d.Routed later .deferred

structure Posting (d : Docket) : Prop where
  numbered : d.Numbered
  -- Messages are tried again on the system loop.
  system : ∀ i, i ≠ 0 → d.retries i = []
  sorted : (d.retries 0).Pairwise (· < ·)
  queued : ∀ n ∈ d.retries 0, d.Routed n .deferred
  posted : ∀ n ∈ d.posts, d.Fits n
  order : d.posts.Pairwise d.Follows

theorem routed_more (more : d.told ⊆ d'.told) (n : Nat) (routing : Routing) (routed : d.Routed n routing) :
    d'.Routed n routing := by
  obtain ⟨a, told⟩ := routed
  exact ⟨a, more told⟩

theorem follows_more (more : d.told ⊆ d'.told) (later earlier : Nat) (follows : d.Follows later earlier) :
    d'.Follows later earlier :=
  follows.imp_right fun inverted => ⟨routed_more more _ _ inverted.1, routed_more more _ _ inverted.2⟩

section Steps

variable (posting : d.Posting) (numbered : d'.Numbered) (more : d.told ⊆ d'.told)

include posting numbered more

theorem posting_kept (less : ∀ i, (d'.retries i).Sublist (d.retries i))
    (posts : d'.posts = d.posts ∨ ∃ n, d'.posts = n :: d.posts ∧ d'.Fits n ∧ ∀ m ∈ d.posts, d'.Follows n m) : d'.Posting := by
  have fits : ∀ n ∈ d.posts, d'.Fits n := by
    intro n told
    refine (posting.posted n told).imp (routed_more more n _) fun early => ⟨routed_more more n _ early.1, fun m queued => ?_⟩
    exact early.2 m ((less 0).subset queued)
  have order : d.posts.Pairwise d'.Follows := posting.order.imp fun follows => follows_more more _ _ follows
  refine ⟨numbered, fun i elsewhere => ?_, posting.sorted.sublist (less 0), fun n queued => ?_, ?_, ?_⟩
  · have none := less i
    rw [posting.system i elsewhere] at none
    exact List.sublist_nil.mp none
  · exact routed_more more n _ (posting.queued n ((less 0).subset queued))
  · rcases posts with same | ⟨n, posts, fit, -⟩
    · rw [same]
      exact fits
    · rw [posts]
      exact List.forall_mem_cons.mpr ⟨fit, fits⟩
  · rcases posts with same | ⟨n, posts, -, follows⟩
    · rw [same]
      exact order
    · rw [posts]
      exact List.pairwise_cons.mpr ⟨follows, order⟩

theorem posting_queued (n : Nat) (retries : ∀ i, d'.retries i = if i = 0 then d.retries i ++ [n] else d.retries i)
    (posts : d'.posts = d.posts) (deferred : d'.Routed n .deferred) (latest : ∀ m ∈ d.numbers, m < n) : d'.Posting := by
  have queue : d'.retries 0 = d.retries 0 ++ [n] := (retries 0).trans (if_pos rfl)
  refine ⟨numbered, fun i elsewhere => ?_, ?_, ?_, ?_, ?_⟩
  · rw [retries i, if_neg elsewhere]
    exact posting.system i elsewhere
  · rw [queue]
    refine List.pairwise_append.mpr ⟨posting.sorted, List.pairwise_singleton _ n, fun m waits last new => ?_⟩
    rw [List.mem_singleton.mp new]
    exact latest m (routed_number m _ (posting.queued m waits))
  · rw [queue]
    refine List.forall_mem_append.mpr ⟨fun m waits => routed_more more m _ (posting.queued m waits), ?_⟩
    exact List.forall_mem_singleton.mpr deferred
  · rw [posts]
    intro m told
    refine (posting.posted m told).imp (routed_more more m _) fun early => ⟨routed_more more m _ early.1, ?_⟩
    rw [queue]
    refine List.forall_mem_append.mpr ⟨early.2, List.forall_mem_singleton.mpr ?_⟩
    exact latest m (routed_number m _ early.1)
  · rw [posts]
    exact posting.order.imp fun follows => follows_more more _ _ follows

end Steps

theorem posting_retried (j n : Nat) (k : Handle) (rest : List Errand) (first : d.work j = .retry k n :: rest)
    (posting : d.Posting) (left : ∀ i, d'.retries i = lane Errand.retrying? (Function.update d.work j rest) i)
    (told : d.told ⊆ d'.told) : d'.Fits n ∧ ∀ m ∈ d.posts, d'.Follows n m := by
  have popped := @lane_pop Errand.retrying? d.work _ rest j n first rfl
  have system : j = 0 := by
    by_contra elsewhere
    have none := (popped j).symm.trans (posting.system j elsewhere)
    rw [if_pos rfl] at none
    cases none
  have queue : d.retries 0 = n :: d'.retries 0 := by
    rw [left 0]
    exact (popped 0).trans (if_pos system.symm)
  have deferred := posting.queued n (by rw [queue]; exact List.mem_cons_self)
  have sorted := posting.sorted
  rw [queue] at sorted
  refine ⟨.inr ⟨routed_more told n _ deferred, (List.pairwise_cons.mp sorted).1⟩, fun m posted => ?_⟩
  rcases posting.posted m posted with delivered | ⟨-, early⟩
  · exact .inr ⟨routed_more told m _ delivered, routed_more told n _ deferred⟩
  · exact .inl (early n (by rw [queue]; exact List.mem_cons_self))

theorem advance_posting (advance : Advance left False d d') (posting : d.Posting) : d'.Posting := by
  have numbered := advance_numbered advance posting.numbered
  have taking : ∀ n, d.serial = some n → ∀ m ∈ d.numbers, m < n := posting.numbered.next
  cases advance with
  | ease eases =>
      refine posting_kept posting numbered (fun x told => eases.told ▸ told) (fun i => ?_)
        (.inl (congrArg (List.filterMap _) eases.told))
      rw [retries, retries, eases.work]
  | spend n serial => exact posting_kept posting numbered (fun _ => id) (fun _ => .refl _) (.inl rfl)
  | send n badge dispatch k serial =>
      exact posting_kept posting numbered (fun _ => List.mem_cons_of_mem _) (fun _ => .refl _) (.inl rfl)
  | complete n fate w ended less turn =>
      exact posting_kept posting numbered (fun _ => List.mem_cons_of_mem _) (fun _ => .refl _) (.inl rfl)
  | deliver n a i badge k e serial =>
      refine posting_kept posting numbered (fun _ told => List.mem_cons_of_mem _ (List.mem_cons_of_mem _ told)) (fun j => ?_)
        (.inr ⟨n, rfl, .inl ⟨a, List.mem_cons_self⟩, fun m told => .inl (taking n serial m ?_)⟩)
      · rw [retries, retries, lane_push_silent rfl]
      · rcases posting.posted m told with delivered | ⟨deferred, -⟩
        · exact routed_number m _ delivered
        · exact routed_number m _ deferred
  | putOff n a k serial =>
      exact posting_queued posting numbered (fun _ => List.mem_cons_of_mem _) n (lane_push rfl) rfl ⟨a, List.mem_cons_self⟩
        (taking n serial)
  | hand n i k callback payload w attached less turn =>
      refine posting_kept posting numbered (fun _ => List.mem_cons_of_mem _) (fun j => ?_) (.inl rfl)
      rw [retries, retries, lane_push_silent rfl]
  | repost j n k rest i e badge first =>
      have left := @lane_push_silent Errand.retrying? (Function.update d.work j rest) (.event k n e) i rfl
      refine posting_kept posting numbered (fun _ => List.mem_cons_of_mem _) (fun i => ?_)
        (.inr ⟨n, rfl, posting_retried j n k rest first posting (congrFun left) fun _ => List.mem_cons_of_mem _⟩)
      rw [retries, retries, left]
      exact lane_less (first ▸ List.sublist_cons_self _ rest) i
  | post n i k e badge unasked => exact unasked.elim
  | skip j x rest first idle =>
      exact posting_kept posting numbered (fun _ => id) (lane_less (first ▸ List.sublist_cons_self x rest)) (.inl rfl)
  | pass j n k e rest badge first bears =>
      exact posting_kept posting numbered (fun _ => List.mem_cons_of_mem _) (lane_less (first ▸ List.sublist_cons_self _ rest))
        (.inl rfl)
  | free j n k callback payload rest first =>
      exact posting_kept posting numbered (fun _ => List.mem_cons_of_mem _) (lane_less (first ▸ List.sublist_cons_self _ rest))
        (.inl rfl)
  | letGo j => exact posting_kept posting numbered (fun _ => id) (lane_less (List.nil_sublist _)) (.inl rfl)

def postsOn (i : Nat) (d : Docket) : List Nat := d.told.filterMap (Happening.postedOn? i)

def passesOn (i : Nat) (d : Docket) : List Nat := d.told.filterMap (Happening.passedOn? i)

def events (d : Docket) : Nat → List Nat := lane Errand.event? d.work

-- Of what was posted to the loop, the latest waits there, and some of the rest was passed on.
def Lined (i : Nat) (d : Docket) : Prop :=
  ∃ past, d.postsOn i = (d.events i).reverse ++ past ∧ (d.passesOn i).Sublist past

theorem lined_kept (i : Nat) (lined : d.Lined i) (waits : d'.events i = d.events i) (posts : d'.postsOn i = d.postsOn i)
    (passes : d'.passesOn i = d.passesOn i) : d'.Lined i := by
  unfold Lined
  rw [waits, posts, passes]
  exact lined

theorem lined_posted (i j n : Nat) (badge : Badge) (lined : d.Lined i)
    (waits : d'.events i = if i = j then d.events i ++ [n] else d.events i)
    (posts : d'.postsOn i = (.posted n j badge :: d.told : List Happening).filterMap (Happening.postedOn? i))
    (passes : d'.passesOn i = d.passesOn i) : d'.Lined i := by
  obtain ⟨past, order, within⟩ := lined
  refine ⟨past, ?_, by rw [passes]; exact within⟩
  by_cases here : i = j
  · have brings : (Happening.posted n j badge).postedOn? i = some n := if_pos here.symm
    rw [posts, List.filterMap_cons_some brings, waits, if_pos here, List.reverse_append]
    exact congrArg (n :: ·) order
  · have silent : (Happening.posted n j badge).postedOn? i = none := if_neg (Ne.symm here)
    rw [posts, List.filterMap_cons_none silent, waits, if_neg here]
    exact order

theorem lined_taken (i j : Nat) (x : Errand) (rest : List Errand) (first : d.work j = x :: rest) (lined : d.Lined i)
    (work : d'.work = Function.update d.work j rest) (posts : d'.postsOn i = d.postsOn i)
    (passes : d'.passesOn i = d.passesOn i ∨ ∃ n, x.event? = some n ∧ i = j ∧ d'.passesOn i = n :: d.passesOn i) :
    d'.Lined i := by
  cases event : x.event? with
  | none =>
      refine lined_kept i lined ?_ posts (passes.resolve_right fun passed => ?_)
      · rw [events, work, lane_pop_silent first event]
        rfl
      · obtain ⟨n, some, -⟩ := passed
        cases event.symm.trans some
  | some n =>
      have popped := lane_pop first event i
      rw [← work] at popped
      by_cases here : i = j
      · obtain ⟨past, order, within⟩ := lined
        rw [if_pos here] at popped
        refine ⟨n :: past, ?_, ?_⟩
        · rw [posts, order, events, popped, List.reverse_cons, List.append_assoc]
          rfl
        · rcases passes with same | ⟨m, some, -, passed⟩
          · rw [same]
            exact within.cons n
          · cases event.symm.trans some
            rw [passed]
            exact within.cons_cons n
      · rw [if_neg here] at popped
        refine lined_kept i lined popped.symm posts (passes.resolve_right fun passed => ?_)
        obtain ⟨m, -, there, -⟩ := passed
        exact here there

theorem advance_lined (i : Nat) (advance : Advance left loose d d') (lined : d.Lined i) : d'.Lined i := by
  cases advance with
  | ease eases =>
      have told : ∀ f : Happening → Option Nat, d'.told.filterMap f = d.told.filterMap f := fun f => by rw [eases.told]
      refine lined_kept i lined ?_ (told _) (told _)
      rw [events, events, eases.work]
  | spend | send | complete => exact lined
  | putOff n a k serial =>
      refine lined_kept i lined ?_ rfl rfl
      rw [events, events, lane_push_silent rfl]
  | hand n j k callback payload w attached less turn =>
      refine lined_kept i lined ?_ rfl rfl
      rw [events, events, lane_push_silent rfl]
  | deliver n a j badge k e serial => exact lined_posted i j n badge lined (lane_push rfl i) rfl rfl
  | repost j n k rest j' e badge first =>
      have left := @lane_pop_silent Errand.event? d.work _ rest j first rfl
      refine lined_posted i j' n badge lined ?_ rfl rfl
      rw [events, lane_push rfl, left]
      rfl
  | post n j k e badge unasked => exact lined_posted i j n badge lined (lane_push rfl i) rfl rfl
  | skip j x rest first idle => exact lined_taken i j x rest first lined rfl rfl (.inl rfl)
  | free j n k callback payload rest first => exact lined_taken i j _ rest first lined rfl rfl (.inl rfl)
  | pass j n k e rest badge first bears =>
      refine lined_taken i j _ rest first lined rfl rfl ?_
      by_cases here : i = j
      · have brings : (Happening.passed j badge e).passedOn? i = some n :=
          (if_pos here.symm).trans (Event.bears_serial k n e bears)
        exact .inr ⟨n, rfl, here, List.filterMap_cons_some brings⟩
      · have silent : (Happening.passed j badge e).passedOn? i = none := if_neg (Ne.symm here)
        exact .inl (List.filterMap_cons_none silent)
  | letGo j =>
      have cleared := @lane_clear Errand.event? d.work j i
      by_cases here : i = j
      · obtain ⟨past, order, within⟩ := lined
        refine ⟨(d.events i).reverse ++ past, ?_, within.trans (List.sublist_append_right _ past)⟩
        rw [events, cleared, if_pos here]
        exact order
      · exact lined_kept i lined (cleared.trans (if_neg here)) rfl rfl

theorem passed_follows (i n m : Nat) (posting : d.Posting) (lined : d.Lined i) (pair : [m, n].Sublist (d.passesOn i)) :
    d.Follows m n := by
  obtain ⟨past, order, within⟩ := lined
  have on : past.Sublist (d.postsOn i) := by
    rw [order]
    exact List.sublist_append_right _ past
  have posted : (d.postsOn i).Sublist d.posts := filterMap_sublist _ _ d.told fun x n => x.postedOn_posted i n
  exact pair_related (pair.trans (within.trans (on.trans posted))) posting.order

theorem routed_same (n : Nat) (a : Arrival) (r r' : Routing) (numbered : d.Numbered) (told : .arrived n a r ∈ d.told)
    (routed : d.Routed n r') : r = r' := by
  obtain ⟨a', told'⟩ := routed
  have once : d.numbers.Nodup := numbered.order.imp Nat.ne_of_gt
  cases named_once once told told' rfl rfl
  rfl

theorem passed_in_order (posting : d.Posting) (i : Nat) (lined : d.Lined i) (n₁ n₂ : Nat) (a₁ a₂ : Arrival) (r₁ r₂ : Routing)
    (arrivals : Earlier (.arrived n₁ a₁ r₁) (.arrived n₂ a₂ r₂) d.told) (x₁ x₂ : Happening) (first : x₁ ∈ d.told)
    (second : x₂ ∈ d.told) (passed : x₁.passedOn? i = some n₁) (passed' : x₂.passedOn? i = some n₂) :
    Earlier x₁ x₂ d.told ∨ r₁ = .deferred ∧ r₂ = .delivered := by
  have order := numbered_earlier _ _ n₁ n₂ posting.numbered arrivals rfl rfl
  have apart : x₂ ≠ x₁ := by
    rintro rfl
    cases passed.symm.trans passed'
    exact Nat.lt_irrefl _ order
  refine (pair_either second first apart).imp_right fun inverted => ?_
  have pair := pair_numbers inverted passed passed'
  rcases passed_follows i n₂ n₁ posting lined pair with below | ⟨delivered, deferred⟩
  · exact absurd below (Nat.lt_asymm order)
  · exact ⟨routed_same n₁ a₁ r₁ _ posting.numbered (arrivals.subset (by simp)) deferred,
      routed_same n₂ a₂ r₂ _ posting.numbered (arrivals.subset (by simp)) delivered⟩

end Docket

namespace Scene

theorem opens_posting (link : LinkSettings) (c : Scene) (opens : c.Opens link) :
    c.stack.docket.Posting ∧ ∀ i, c.stack.docket.Lined i := by
  obtain ⟨told, -, work⟩ := opens_docket link c opens
  have numbers : c.stack.docket.numbers = [] := by rw [Docket.numbers, told]; rfl
  have posts : c.stack.docket.posts = [] := by rw [Docket.posts, told]; rfl
  have retries : ∀ i, c.stack.docket.retries i = [] := fun i => by rw [Docket.retries, Docket.lane, work i]; rfl
  refine ⟨⟨⟨by rw [numbers]; exact .nil, by rw [numbers]; simp⟩, fun i _ => retries i, ?_, ?_, ?_, ?_⟩, fun i => ⟨[], ?_, ?_⟩⟩
  · rw [retries 0]
    exact .nil
  · rw [retries 0]
    simp
  · rw [posts]
    simp
  · rw [posts]
    exact .nil
  · rw [Docket.postsOn, Docket.events, Docket.lane, told, work i]
    rfl
  · rw [Docket.passesOn, told]
    exact .slnil

/-- Of two messages that came in and were passed on by one loop, the earlier is passed on first, unless it was put off and
the later one delivered at once. Retries are run by their own jobs only. Where anyone but the link completes messages too,
fewer messages than a slot has generations got slots. -/
theorem inbound_in_order (link : LinkSettings) (incidents : List Incident) (c : Scene) (opens : c.Opens link)
    (honest : ∀ x ∈ incidents, x.Honest ∧ ¬x.Retries) (sole : (∀ x ∈ incidents, x.Lawful) ∨ (c.undergo incidents).Few)
    (n₁ n₂ i : Nat) (a₁ a₂ : Arrival) (r₁ r₂ : Routing) (k₁ k₂ : Handle) (b₁ b₂ : Badge) (e₁ e₂ : Event)
    (admitted : r₁.Admits ∧ r₂.Admits) (bear : e₁.bears k₁ n₁ ∧ e₂.bears k₂ n₂) :
    let history := (c.undergo incidents).stack.hub.history
    Earlier (.arrived n₁ a₁ r₁) (.arrived n₂ a₂ r₂) history → .passed i b₁ e₁ ∈ history → .passed i b₂ e₂ ∈ history →
      Earlier (.passed i b₁ e₁) (.passed i b₂ e₂) history ∨ r₁ = .deferred ∧ r₂ = .delivered := by
  intro history arrivals first second
  have clear : c.Clear incidents := by
    rcases sole with lawful | few
    · exact lawful_clear link incidents c opens lawful
    · exact few_clear link incidents c opens (fun x member => (honest x member).1) few
  -- Completions are in whatever order.
  have advances := undergo_advances (fun _ => False) False incidents c clear honest fun _ => False.elim
  obtain ⟨posting, lined⟩ := opens_posting link c opens
  have moves : ∀ a r n, Routing.Admits r → (Happening.arrived n a r).moves = true := by
    intro a r n admits
    cases r with
    | delivered | deferred => rfl
    | rejected failure => exact admits.elim
  have passes : ∀ b e k n, Event.bears k n e →
      (Happening.passed i b e).passedOn? i = some n ∧ (Happening.passed i b e).moves = true := by
    intro b e k n bears
    have serial := Event.bears_serial k n e bears
    exact ⟨(if_pos rfl).trans serial, by rw [Happening.moves, serial]; rfl⟩
  obtain ⟨passed, moves₁⟩ := passes b₁ e₁ k₁ n₁ bear.1
  obtain ⟨passed', moves₂⟩ := passes b₂ e₂ k₂ n₂ bear.2
  have order := Docket.passed_in_order
    (Docket.advances_invariant Docket.Posting advances (fun _ _ => Docket.advance_posting) posting) i
    (Docket.advances_invariant (Docket.Lined i) advances (fun _ _ => Docket.advance_lined i) (lined i)) n₁ n₂ a₁ a₂ r₁ r₂
    (earlier_told _ _ history arrivals (moves a₁ r₁ n₁ admitted.1) (moves a₂ r₂ n₂ admitted.2)) _ _
    (List.mem_filter.mpr ⟨first, moves₁⟩) (List.mem_filter.mpr ⟨second, moves₂⟩) passed passed'
  exact order.imp_left fun earlier => earlier.trans List.filter_sublist

def lodger : Badge := ⟨1, 1, .none, 0⟩

def arriving (byte : UInt8) : Arrival := ⟨1, 1, ⟨1⟩, [byte]⟩

def bringing (byte : UInt8) (n : Nat) : Event := Parcel.event ⟨n, 1⟩ 1 ⟨(arriving byte).message, none, n⟩

def passing (byte : UInt8) (n : Nat) : Happening := .passed 0 lodger (bringing byte n)

def overtaking : List Incident :=
  [.act (.load 0 1 .none .plain), .act (.deliver (arriving 7) true), .take 0, .finish 0, .act (.deliver (arriving 8) true),
    .act (.deliver (arriving 9) true), .take 0, .finish 0, .take 0, .finish 0, .take 0, .finish 0, .take 0, .finish 0].map .move

theorem overtaking_in_order :
    small.Opens { duplicates := true } ∧ (∀ x ∈ overtaking, x.Lawful) ∧
      let history := (small.undergo overtaking).stack.hub.history
      Earlier (.arrived 0 (arriving 7) .deferred) (.arrived 1 (arriving 8) .delivered) history ∧
      Earlier (.arrived 1 (arriving 8) .delivered) (.arrived 2 (arriving 9) .delivered) history ∧
      Earlier (passing 8 1) (passing 7 0) history ∧ Earlier (passing 8 1) (passing 9 2) history := by
  have lawful : ∀ x ∈ overtaking, x.Lawful := by
    simp [overtaking, Incident.Lawful, Move.Lawful, Action.Lawful]
  have told : (small.undergo overtaking).stack.hub.history =
      [passing 7 0, passing 9 2, passing 8 1, .posted 0 0 lodger, .arrived 2 (arriving 9) .delivered, .posted 2 0 lodger,
        .arrived 1 (arriving 8) .delivered, .posted 1 0 lodger, .arrived 0 (arriving 7) .deferred, .requested 0 lodger] := by rfl
  have later : Earlier (.arrived 1 (arriving 8) .delivered) (.arrived 2 (arriving 9) .delivered)
      (small.undergo overtaking).stack.hub.history := by
    rw [told]
    exact .cons _ (.cons _ (.cons _ (.cons _ (.cons_cons _ (List.singleton_sublist.mpr (by simp))))))
  refine ⟨small_opens, lawful, ?_, later, ?_, ?_⟩
  · rw [told]
    exact .cons _ (.cons _ (.cons _ (.cons _ (.cons _ (.cons _ (.cons_cons _ (List.singleton_sublist.mpr (by simp))))))))
  · rw [told]
    exact .cons_cons _ (List.singleton_sublist.mpr (by simp))
  · have order := inbound_in_order { duplicates := true } overtaking small small_opens
      (fun x member => x.lawful_honest (lawful x member)) (.inl lawful) 1 2 0 (arriving 8) (arriving 9) .delivered .delivered
      ⟨1, 1⟩ ⟨2, 1⟩ lodger lodger (bringing 8 1) (bringing 9 2) ⟨trivial, trivial⟩ ⟨rfl, rfl⟩ later
      (show passing 8 1 ∈ _ by rw [told]; simp) (show passing 9 2 ∈ _ by rw [told]; simp)
    exact order.resolve_right fun inverted => by cases inverted.1

end Scene

end HubRelay
