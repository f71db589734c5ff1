import HubRelay.Proofs.Relay.Tenants

/-! What holds of the messages whatever is completed or retried: they are numbered apart, each is done with once at
most, and a callback is called once at most and with what it was sent with. -/

set_option autoImplicit false

namespace HubRelay

namespace Happening

def took? : Happening → Option Nat
  | .offered n _ _ (.sent _) | .offered n _ _ (.rejected .refused _) => some n
  | .arrived n _ .delivered | .arrived n _ .deferred | .arrived n _ (.rejected .unavailable) => some n
  | _ => none

def freeing? : Happening → Option (Nat × FreeCallback Action × Payload)
  | .freed n callback payload => some (n, callback, payload)
  | _ => none

theorem freed_freeing (x : Happening) : x.freed? = x.freeing?.map (·.1) := by cases x <;> rfl

theorem took_serial (x : Happening) (n : Nat) (took : x.took? = some n) : x.serial? = some n := by
  unfold took? at took
  split at took <;> first | exact took | cases took

theorem plain_silent (x : Happening) (f : Happening → Option Nat) (within : ∀ n, f x = some n → x.serial? = some n)
    (plain : x.serial? = none) : f x = none := by
  refine Option.eq_none_iff_forall_ne_some.mpr fun n told => ?_
  rw [within n told] at plain
  cases plain

end Happening

namespace Custody

variable {t t' : Custody} {size : Nat}

def offering (t : Custody) : List Nat := (t.bid.map fun _ => t.serial).toList

def numbers (t : Custody) : List Nat := t.offering ++ t.history.filterMap Happening.serial?

def taken (t : Custody) : List Nat := t.offering ++ t.history.filterMap Happening.took?

def completed (t : Custody) : List Nat := t.history.filterMap Happening.completed?

def bound (t : Custody) : Nat := t.serial + t.offering.length

theorem taken_numbers (n : Nat) (took : n ∈ t.taken) : n ∈ t.numbers := by
  rcases List.mem_append.mp took with own | told
  · exact List.mem_append_left _ own
  · obtain ⟨x, member, serial⟩ := List.mem_filterMap.mp told
    exact List.mem_append_right _ (List.mem_filterMap.mpr ⟨x, member, x.took_serial n serial⟩)

theorem idle_offering (idle : t.bid = none) : t.offering = [] := by rw [offering, idle, Option.map_none, Option.toList_none]

theorem bidding_offering (b : Bid) (bids : t.bid = some b) : t.offering = [t.serial] := by
  rw [offering, bids, Option.map_some, Option.toList_some]

theorem answered_told (b : Bid) (x : Happening) (f : Happening → Option Nat) (bids : t.bid = some b) (idle : t'.bid = none)
    (history : t'.history = x :: t.history) (number : f x = some t.serial) :
    t'.offering ++ t'.history.filterMap f = t.offering ++ t.history.filterMap f := by
  rw [bidding_offering b bids, idle_offering idle, history, List.filterMap_cons_some number]
  rfl

theorem deal_numbers (deal : Deal t t') :
    (t'.numbers = t.numbers ∧ (t'.pool.isSome → t.pool.isSome ∧ t'.bound = t.bound)) ∨
      t.pool.isSome ∧ t.bid = none ∧ t'.numbers = t.serial :: t.numbers ∧ t'.bound = t.serial + 1 := by
  have told : ∀ (next : Custody) (x : Happening) (earlier : List Happening), t.pool.isSome → t.bid = none →
      next.bid = none → next.serial = t.serial + 1 → next.history = x :: earlier → x.serial? = some t.serial →
      earlier.filterMap Happening.serial? = t.history.filterMap Happening.serial? →
      t.pool.isSome ∧ t.bid = none ∧ next.numbers = t.serial :: t.numbers ∧ next.bound = t.serial + 1 := by
    intro next x earlier alive idle idle' serial history number serials
    refine ⟨alive, idle, ?_, ?_⟩
    · rw [numbers, numbers, idle_offering idle, idle_offering idle', history, List.filterMap_cons_some number, serials]
      rfl
    · rw [bound, idle_offering idle', serial]
      rfl
  have closed : ∀ (next : Custody) (b : Bid) (x : Happening), t.pool.isSome → t.bid = some b → next.bid = none →
      next.serial = t.serial + 1 → next.history = x :: t.history → x.serial? = some t.serial →
      next.numbers = t.numbers ∧ (next.pool.isSome → t.pool.isSome ∧ next.bound = t.bound) := by
    intro next b x alive bids idle' serial history number
    refine ⟨answered_told b x Happening.serial? bids idle' history number, fun _ => ⟨alive, ?_⟩⟩
    rw [bound, bound, bidding_offering b bids, idle_offering idle', serial]
    rfl
  cases deal with
  | remark x plain idle =>
      exact .inl ⟨congrArg (t.offering ++ ·) (List.filterMap_cons_none plain.serial), fun alive => ⟨alive, rfl⟩⟩
  | ask | fizzle | pass | repost | free => exact .inl ⟨rfl, fun alive => ⟨alive, rfl⟩⟩
  | giveUp => exact .inl ⟨rfl, fun alive => ⟨by simpa using alive, rfl⟩⟩
  | settle p parcel k fate alive live ended => exact .inl ⟨rfl, fun _ => ⟨by rw [alive]; rfl, rfl⟩⟩
  | hand p parcel k callback i alive live heard => exact .inl ⟨rfl, fun _ => ⟨by rw [alive]; rfl, rfl⟩⟩
  | bereave idle =>
      refine .inl ⟨?_, fun alive => Bool.noConfusion alive⟩
      simp only [numbers, offering, idle, Option.map_none]
  | refuse badge d failure payload alive idle early => exact .inr (told _ _ _ alive idle idle rfl rfl rfl rfl)
  | turnDown a failure alive idle early => exact .inr (told _ _ _ alive idle idle rfl rfl rfl rfl)
  | bounce a p next k alive idle allocated => exact .inr (told _ _ _ (by rw [alive]; rfl) idle idle rfl rfl rfl rfl)
  | deliver a p next k i badge alive idle allocated =>
      exact .inr (told _ _ _ (by rw [alive]; rfl) idle idle rfl rfl rfl rfl)
  | putOff a p next k alive idle allocated => exact .inr (told _ _ _ (by rw [alive]; rfl) idle idle rfl rfl rfl rfl)
  | accept b alive bids => exact .inl (closed _ b _ alive bids rfl rfl rfl rfl)
  | withdraw b payload alive bids => exact .inl (closed _ b _ alive bids rfl rfl rfl rfl)
  | lend badge d woke p next k alive idle allocated =>
      refine .inr ⟨by rw [alive]; rfl, idle, ?_, rfl⟩
      simp only [numbers, idle_offering idle]
      rfl

structure Numbered (t : Custody) : Prop where
  fresh : t.pool.isSome → ∀ n ∈ t.numbers, n < t.bound
  apart : t.numbers.Nodup

theorem numbered_fresh (numbered : t.Numbered) (alive : t.pool.isSome) (idle : t.bid = none) (n : Nat) (member : n ∈ t.numbers) :
    n < t.serial := by
  have below := numbered.fresh alive n member
  rw [bound, idle_offering idle] at below
  exact below

theorem deal_numbered (deal : Deal t t') (numbered : t.Numbered) : t'.Numbered := by
  rcases deal_numbers deal with ⟨same, living⟩ | ⟨alive, idle, more, next⟩
  · constructor
    · intro alive'
      obtain ⟨alive, kept⟩ := living alive'
      rw [same, kept]
      exact numbered.fresh alive
    · rw [same]
      exact numbered.apart
  · have below := numbered_fresh numbered alive idle
    constructor
    · intro _ n member
      rw [more] at member
      rw [next]
      rcases List.mem_cons.mp member with rfl | old
      · exact Nat.lt_succ_self _
      · exact Nat.lt_succ_of_lt (below n old)
    · rw [more, List.nodup_cons]
      exact ⟨fun member => Nat.lt_irrefl _ (below _ member), numbered.apart⟩

theorem deal_slots (deal : Deal t t') :
    (t'.taken = t.taken ∧ ∀ p', t'.pool = some p' → ∃ p, t.pool = some p ∧ ∀ i, p'.generation? i = p.generation? i) ∨
      t'.taken = t.serial :: t.taken ∧ ∃ p parcel k next, t.pool = some p ∧ p.allocate parcel = some (k, next) ∧
        ∀ p', t'.pool = some p' → ∀ i, p'.generation? i = next.generation? i := by
  have kept : ∀ p', t.pool = some p' → ∃ p, t.pool = some p ∧ ∀ i, p'.generation? i = p.generation? i :=
    fun p' alive => ⟨p', alive, fun _ => rfl⟩
  have emptied : ∀ k p', t.pool.map (·.reclaimed k) = some p' →
      ∃ p, t.pool = some p ∧ ∀ i, p'.generation? i = p.generation? i := by
    intro k p' alive'
    obtain ⟨p, alive, rfl⟩ := Option.map_eq_some_iff.mp alive'
    exact ⟨p, alive, p.generation_reclaimed k⟩
  have told : ∀ (next : Custody) (x : Happening) (earlier : List Happening), t.bid = none → next.bid = none →
      next.history = x :: earlier → x.took? = some t.serial →
      earlier.filterMap Happening.took? = t.history.filterMap Happening.took? → next.taken = t.serial :: t.taken := by
    intro next x earlier idle idle' history number slots
    rw [taken, taken, idle_offering idle, idle_offering idle', history, List.filterMap_cons_some number, slots]
    rfl
  have silent : ∀ (next : Custody) (x : Happening), t.bid = none → next.bid = none → next.history = x :: t.history →
      x.took? = none → next.taken = t.taken := by
    intro next x idle idle' history none
    rw [taken, taken, idle_offering idle, idle_offering idle', history, List.filterMap_cons_none none]
  cases deal with
  | remark x plain idle => exact .inl ⟨silent _ x idle idle rfl (x.plain_silent Happening.took? x.took_serial plain.serial), kept⟩
  | ask | fizzle | pass | repost | free => exact .inl ⟨rfl, kept⟩
  | giveUp i x es idle work unpledged => exact .inl ⟨rfl, emptied x.holding.1⟩
  | settle p parcel k fate alive live ended =>
      refine .inl ⟨rfl, fun p' alive' => ⟨p, alive, fun i => ?_⟩⟩
      cases alive'
      rw [SlotPool.generation_reclaimed]
      exact p.generation_put k _ .retiring ((SlotPool.live_state k parcel p).mp live) i
  | hand p parcel k callback i alive live heard =>
      refine .inl ⟨rfl, fun p' alive' => ⟨p, alive, fun i => ?_⟩⟩
      cases alive'
      exact p.generation_put k _ .retiring ((SlotPool.live_state k parcel p).mp live) i
  | bereave idle =>
      refine .inl ⟨?_, fun p' alive' => nomatch alive'⟩
      simp only [taken, offering, idle, Option.map_none]
  | refuse badge d failure payload alive idle early =>
      refine .inl ⟨silent _ _ idle idle rfl ?_, kept⟩
      cases failure <;> first | rfl | exact absurd rfl early
  | turnDown a failure alive idle early =>
      refine .inl ⟨silent _ _ idle idle rfl ?_, kept⟩
      cases failure <;> first | rfl | exact absurd rfl early
  | bounce a p next k alive idle allocated =>
      refine .inr ⟨told _ _ _ idle idle rfl rfl rfl, p, _, k, next, alive, allocated, fun p' alive' i => ?_⟩
      cases alive'
      exact next.generation_reclaimed k i
  | deliver a p next k i badge alive idle allocated =>
      refine .inr ⟨told _ _ _ idle idle rfl rfl rfl, p, _, k, next, alive, allocated, fun p' alive' i => ?_⟩
      cases alive'
      rfl
  | putOff a p next k alive idle allocated =>
      refine .inr ⟨told _ _ _ idle idle rfl rfl rfl, p, _, k, next, alive, allocated, fun p' alive' i => ?_⟩
      cases alive'
      rfl
  | accept b alive bids => exact .inl ⟨answered_told b _ Happening.took? bids rfl rfl rfl, kept⟩
  | withdraw b payload alive bids =>
      exact .inl ⟨answered_told b _ Happening.took? bids rfl rfl rfl, emptied b.handle⟩
  | lend badge d woke p next k alive idle allocated =>
      refine .inr ⟨?_, p, _, k, next, alive, allocated, fun p' alive' i => ?_⟩
      · simp only [taken, idle_offering idle]
        rfl
      · cases alive'
        rfl

theorem deal_taken (deal : Deal t t') (n : Nat) (member : n ∈ t.taken) : n ∈ t'.taken := by
  rcases deal_slots deal with ⟨same, -⟩ | ⟨more, -⟩
  · rw [same]
    exact member
  · rw [more]
    exact List.mem_cons_of_mem _ member

-- While no generation came round again, the pool's own counts tell how many messages got slots.
def Tallied (t : Custody) : Prop := t.taken.length < generations → ∀ p, t.pool = some p → p.allotted = t.taken.length

theorem deal_tallied (deal : Deal t t') (housed : t.Housed size) (tallied : t.Tallied) : t'.Tallied := by
  intro few p' alive'
  rcases deal_slots deal with ⟨same, pools⟩ | ⟨more, p, parcel, k, next, alive, allocated, counts⟩
  · obtain ⟨p, alive, counts⟩ := pools p' alive'
    rw [same] at few ⊢
    exact (SlotPool.allotted_same p p' counts).trans (tallied few p alive)
  · rw [more, List.length_cons] at few ⊢
    have before := tallied (Nat.lt_of_succ_lt few) p alive
    rw [← before] at few ⊢
    exact (SlotPool.allotted_same next p' (counts p' alive')).trans
      (SlotPool.allotted_allocated parcel p next k (housed p alive).1 allocated few).1

theorem deal_history (deal : Deal t t') : ∃ news, t'.history = news ++ t.history := by
  cases deal with
  | lend | ask | fizzle | pass | giveUp | bereave => exact ⟨[], rfl⟩
  | deliver => exact ⟨[_, _], rfl⟩
  | remark | refuse | accept | withdraw | settle | hand | turnDown | bounce | putOff | repost | free => exact ⟨[_], rfl⟩

theorem deal_within (deal : Deal t t') (x : Happening) (member : x ∈ t.history) : x ∈ t'.history := by
  obtain ⟨news, same⟩ := deal_history deal
  rw [same]
  exact List.mem_append_right news member

theorem deal_completed (deal : Deal t t') :
    (t'.completed = t.completed ∧ t'.completions ≤ t.completions) ∨
      ∃ k parcel, t.live? k = some parcel ∧ t'.live? k = none ∧ t'.completed = parcel.serial :: t.completed ∧
        t'.completions = t.completions + 1 := by
  cases deal with
  | remark x plain idle => exact .inl ⟨List.filterMap_cons_none plain.completed, le_rfl⟩
  | bereave => exact .inl ⟨rfl, Nat.zero_le _⟩
  | settle p parcel k fate alive live ended =>
      refine .inr ⟨k, parcel, Option.bind_eq_some_iff.mpr ⟨p, alive, live⟩, ?_, rfl, rfl⟩
      change ((p.put k .retiring).reclaimed k).live? k = none
      rw [SlotPool.reclaimed_live, if_pos rfl]
  | hand p parcel k callback i alive live heard =>
      refine .inr ⟨k, parcel, Option.bind_eq_some_iff.mpr ⟨p, alive, live⟩, ?_, rfl, rfl⟩
      change (p.put k .retiring).live? k = none
      rw [SlotPool.put_live p k k parcel live, if_pos rfl]
  | _ => exact .inl ⟨rfl, le_rfl⟩

theorem holds_taken (k : Handle) (parcel : Parcel) (holds : t.Holds k parcel) : parcel.serial ∈ t.taken := by
  rcases holds with (⟨badge, d, woke, member, -, -⟩ | ⟨a, routing, member, admits, -, -⟩) | ⟨badge, d, woke, bids, rfl⟩
  · exact List.mem_append_right _ (List.mem_filterMap.mpr ⟨_, member, rfl⟩)
  · refine List.mem_append_right _ (List.mem_filterMap.mpr ⟨_, member, ?_⟩)
    cases routing with
    | delivered | deferred => rfl
    | rejected => exact admits.elim
  · rw [taken, bidding_offering _ bids]
    exact List.mem_cons_self

theorem deal_bid (deal : Deal t t') (b : Bid) (bids : t.bid = some b) :
    (t'.bid = some b ∧ t'.serial = t.serial) ∨
      ∃ answer, .offered t.serial b.badge b.dispatch answer ∈ t'.history ∧
        (answer = .sent b.handle ∨ t'.live? b.handle = none) := by
  cases deal with
  | settle | hand => exact .inl ⟨bids, rfl⟩
  | accept b' alive bids' =>
      cases bids.symm.trans bids'
      exact .inr ⟨_, List.mem_cons_self, .inl rfl⟩
  | withdraw b' payload alive bids' =>
      cases bids.symm.trans bids'
      refine .inr ⟨_, List.mem_cons_self, .inr (Option.eq_none_iff_forall_ne_some.mpr fun parcel live => ?_)⟩
      obtain ⟨q, emptied, lives⟩ := Option.bind_eq_some_iff.mp live
      obtain ⟨p, -, rfl⟩ := Option.map_eq_some_iff.mp emptied
      rw [SlotPool.reclaimed_live, if_pos rfl] at lives
      cases lives
  | remark | refuse | lend | turnDown | bounce | deliver | putOff | ask | repost | fizzle | free | pass | giveUp | bereave =>
      simp_all only [reduceCtorEq]

theorem deal_holds (deal : Deal t t') (k : Handle) (parcel : Parcel) (live : t'.live? k = some parcel)
    (holds : t.Holds k parcel) : t'.Holds k parcel := by
  rcases holds with origin | ⟨badge, d, woke, bids, rfl⟩
  · exact .inl (origin.mono (deal_within deal))
  · rcases deal_bid deal _ bids with ⟨bids', serial⟩ | ⟨answer, offered, rfl | gone⟩
    · exact .inr ⟨badge, d, woke, bids', by rw [serial]⟩
    · exact .inl (.inl ⟨badge, d, woke, offered, rfl, rfl⟩)
    · rw [live] at gone
      cases gone

structure Lodged (t : Custody) : Prop where
  holds : ∀ k parcel, t.live? k = some parcel → t.Holds k parcel
  lone : ∀ k k' parcel parcel', t.live? k = some parcel → t.live? k' = some parcel' → parcel.serial = parcel'.serial → k = k'
  ongoing : ∀ k parcel, t.live? k = some parcel → parcel.serial ∉ t.completed
  once : t.completed.Nodup
  began : ∀ n ∈ t.completed, n ∈ t.taken
  counted : t.completions ≤ t.completed.length

theorem granted_fresh (numbered : t.Numbered) (k : Handle) (parcel : Parcel) (n : Nat) (granted : Granted t t' k parcel)
    (took : n ∈ t.taken) : parcel.serial ≠ n := by
  rintro rfl
  obtain ⟨p, next, alive, -⟩ := granted.taken
  have below := numbered_fresh numbered (by rw [alive]; rfl) granted.idle _ (taken_numbers _ took)
  exact Nat.ne_of_lt below granted.serial

theorem lodged_taken (lodged : t.Lodged) (k : Handle) (parcel : Parcel) (live : t.live? k = some parcel) :
    parcel.serial ∈ t.taken :=
  holds_taken k parcel (lodged.holds k parcel live)

theorem deal_lone (deal : Deal t t') (housed : t.Housed size) (numbered : t.Numbered) (lodged : t.Lodged) (k k' : Handle)
    (parcel parcel' : Parcel) (live : t'.live? k = some parcel) (live' : t'.live? k' = some parcel')
    (same : parcel.serial = parcel'.serial) : k = k' := by
  rcases deal_resident deal housed k parcel live with old | granted
  · rcases deal_resident deal housed k' parcel' live' with old' | granted'
    · exact lodged.lone k k' parcel parcel' old old' same
    · exact absurd same.symm (granted_fresh numbered k' parcel' _ granted' (lodged_taken lodged k parcel old))
  · rcases deal_resident deal housed k' parcel' live' with old' | granted'
    · exact absurd same (granted_fresh numbered k parcel _ granted (lodged_taken lodged k' parcel' old'))
    · by_contra apart
      have held := (granted_live housed k parcel granted).2 k'
      rw [if_neg (Ne.symm apart), (granted_live housed k' parcel' granted').1, live'] at held
      cases held

theorem deal_ongoing (deal : Deal t t') (housed : t.Housed size) (numbered : t.Numbered) (lodged : t.Lodged) (k : Handle)
    (parcel : Parcel) (live : t'.live? k = some parcel) : parcel.serial ∉ t'.completed := by
  intro done
  rcases deal_completed deal with ⟨same, -⟩ | ⟨k₀, first, live₀, gone, more, -⟩
  · rw [same] at done
    rcases deal_resident deal housed k parcel live with old | granted
    · exact lodged.ongoing k parcel old done
    · exact granted_fresh numbered k parcel _ granted (lodged.began _ done) rfl
  · rw [more] at done
    rcases deal_resident deal housed k parcel live with old | granted
    · rcases List.mem_cons.mp done with same | before
      · cases lodged.lone k k₀ parcel first old live₀ same
        rw [live] at gone
        cases gone
      · exact lodged.ongoing k parcel old before
    · rcases List.mem_cons.mp done with same | before
      · exact granted_fresh numbered k parcel _ granted (lodged_taken lodged k₀ first live₀) same
      · exact granted_fresh numbered k parcel _ granted (lodged.began _ before) rfl

theorem deal_lodged (deal : Deal t t') (housed : t.Housed size) (numbered : t.Numbered) (lodged : t.Lodged) : t'.Lodged := by
  constructor
  · intro k parcel live
    rcases deal_resident deal housed k parcel live with old | granted
    · exact deal_holds deal k parcel live (lodged.holds k parcel old)
    · exact granted.holds
  · exact deal_lone deal housed numbered lodged
  · exact deal_ongoing deal housed numbered lodged
  · rcases deal_completed deal with ⟨same, -⟩ | ⟨k₀, first, live₀, -, more, -⟩
    · rw [same]
      exact lodged.once
    · rw [more, List.nodup_cons]
      exact ⟨lodged.ongoing k₀ first live₀, lodged.once⟩
  · intro n done
    apply deal_taken deal n
    rcases deal_completed deal with ⟨same, -⟩ | ⟨k₀, first, live₀, -, more, -⟩
    · exact lodged.began n (by rw [← same]; exact done)
    · rw [more] at done
      rcases List.mem_cons.mp done with rfl | before
      · exact lodged_taken lodged k₀ first live₀
      · exact lodged.began n before
  · rcases deal_completed deal with ⟨same, fewer⟩ | ⟨k₀, first, live₀, -, more, next⟩
    · rw [same]
      exact le_trans fewer lodged.counted
    · rw [more, next]
      exact Nat.succ_le_succ lodged.counted

def pledges (t : Custody) : Multiset (Nat × FreeCallback Action × Payload) := t.errands.filterMap (·.2.pledge?)

def frees (t : Custody) : List (Nat × FreeCallback Action × Payload) := t.history.filterMap Happening.freeing?

def handed (t : Custody) : List Nat := t.history.filterMap Happening.handed?

def Requested (x : Nat × FreeCallback Action × Payload) (t : Custody) : Prop :=
  ∃ badge d answer, .offered x.1 badge d answer ∈ t.history ∧ d.free = some x.2.1 ∧ x.2.2 = d.payload

def Entrusted (x : Nat × FreeCallback Action × Payload) (t : Custody) : Prop :=
  t.Requested x ∨ ∃ b, t.bid = some b ∧ x.1 = t.serial ∧ b.dispatch.free = some x.2.1 ∧ x.2.2 = b.dispatch.payload

theorem deal_requested (deal : Deal t t') (x : Nat × FreeCallback Action × Payload) (requested : t.Requested x) :
    t'.Requested x := by
  obtain ⟨badge, d, answer, member, rest⟩ := requested
  exact ⟨badge, d, answer, deal_within deal _ member, rest⟩

theorem deal_entrusted (deal : Deal t t') (x : Nat × FreeCallback Action × Payload) (entrusted : t.Entrusted x) :
    t'.Entrusted x := by
  rcases entrusted with requested | ⟨b, bids, serial, rest⟩
  · exact .inl (deal_requested deal x requested)
  · rcases deal_bid deal b bids with ⟨bids', same⟩ | ⟨answer, offered, -⟩
    · exact .inr ⟨b, bids', serial.trans same.symm, rest⟩
    · rw [← serial] at offered
      exact .inl ⟨b.badge, b.dispatch, answer, offered, rest⟩

theorem holds_entrusted (k : Handle) (parcel : Parcel) (callback : FreeCallback Action) (holds : t.Holds k parcel)
    (heard : parcel.callback = some callback) : t.Entrusted (parcel.serial, callback, parcel.message.payload) := by
  rcases holds with (⟨badge, d, woke, offered, message, free⟩ | ⟨a, routing, -, -, -, silent⟩) | ⟨badge, d, woke, bids, rfl⟩
  · exact .inl ⟨badge, d, _, offered, free.symm.trans heard, by rw [message]; rfl⟩
  · rw [silent] at heard
    cases heard
  · exact .inr ⟨_, bids, rfl, heard, rfl⟩

theorem deal_pledges (deal : Deal t t') :
    (t'.pledges = t.pledges ∧ t'.handed = t.handed ∧ t'.frees = t.frees) ∨
      (∃ k parcel callback, t.live? k = some parcel ∧ parcel.callback = some callback ∧
        t'.pledges = (parcel.serial, callback, parcel.message.payload) ::ₘ t.pledges ∧
        t'.handed = parcel.serial :: t.handed ∧ t'.frees = t.frees) ∨
      ∃ x, t.bid = none ∧ t.pledges = x ::ₘ t'.pledges ∧ t'.handed = t.handed ∧ t'.frees = x :: t.frees := by
  have dropped : ∀ (i : Nat) (x : Errand) es, x.pledge? = none → t.errands = (i, x) ::ₘ es →
      es.filterMap (·.2.pledge?) = t.pledges := by
    intro i x es silent work
    rw [pledges, work, view_skip Errand.pledge? i x es silent]
  cases deal with
  | lend | refuse | accept | withdraw | turnDown | bounce | bereave => exact .inl ⟨rfl, rfl, rfl⟩
  | remark x plain idle =>
      refine .inl ⟨rfl, List.filterMap_cons_none (handed_completed x plain.completed).1, List.filterMap_cons_none ?_⟩
      have none := plain.freed
      rw [x.freed_freeing] at none
      exact Option.map_eq_none_iff.mp none
  | settle p parcel k fate alive live ended =>
      refine .inl ⟨rfl, List.filterMap_cons_none ?_, rfl⟩
      cases fate with
      | handed i => exact absurd rfl (ended i)
      | released | abandoned => rfl
  | hand p parcel k callback i alive live heard =>
      exact .inr (.inl ⟨k, parcel, callback, Option.bind_eq_some_iff.mpr ⟨p, alive, live⟩, heard,
        view_gain Errand.pledge? i (.handBack k parcel.serial callback parcel.message.payload) _ t.errands rfl, rfl, rfl⟩)
  | deliver a p next k i badge alive idle allocated => exact .inl ⟨view_skip Errand.pledge? i _ _ rfl, rfl, rfl⟩
  | putOff a p next k alive idle allocated => exact .inl ⟨view_skip Errand.pledge? 0 _ _ rfl, rfl, rfl⟩
  | ask p parcel k alive idle live => exact .inl ⟨view_skip Errand.pledge? 0 _ _ rfl, rfl, rfl⟩
  | repost j n k es p parcel i badge idle work alive live =>
      exact .inl ⟨(view_skip Errand.pledge? i _ es rfl).trans (dropped j _ es rfl work), rfl, rfl⟩
  | fizzle j n k es idle work gone => exact .inl ⟨dropped j _ es rfl work, rfl, rfl⟩
  | pass i n k e es idle work =>
      exact .inl ⟨(view_skip Errand.pledge? i _ es rfl).trans (dropped i _ es rfl work), rfl, rfl⟩
  | giveUp i x es idle work unpledged => exact .inl ⟨dropped i x es unpledged work, rfl, rfl⟩
  | free i n k callback payload es idle work =>
      refine .inr (.inr ⟨(n, callback, payload), idle, ?_, rfl, rfl⟩)
      rw [pledges, work, view_gain Errand.pledge? i (.handBack k n callback payload) _ es rfl]
      exact congrArg _ (view_skip Errand.pledge? i _ es rfl).symm

structure Answered (t : Custody) : Prop where
  balance : (t.handed : Multiset Nat) = t.pledges.map (·.1) + (t.frees.map (·.1) : List Nat)
  queued : ∀ x ∈ t.pledges, t.Entrusted x
  called : ∀ x ∈ t.frees, t.Requested x

theorem deal_answered (deal : Deal t t') (lodged : t.Lodged) (answered : t.Answered) : t'.Answered := by
  rcases deal_pledges deal with ⟨pledges, handed, frees⟩ | ⟨k, parcel, callback, live, heard, pledges, handed, frees⟩ |
    ⟨x, idle, pledges, handed, frees⟩
  · constructor
    · rw [pledges, handed, frees]
      exact answered.balance
    · rw [pledges]
      exact fun x member => deal_entrusted deal x (answered.queued x member)
    · rw [frees]
      exact fun x member => deal_requested deal x (answered.called x member)
  · constructor
    · rw [pledges, handed, frees, ← Multiset.cons_coe, answered.balance, Multiset.map_cons, Multiset.cons_add]
    · rw [pledges]
      intro x member
      rcases Multiset.mem_cons.mp member with rfl | old
      · exact deal_entrusted deal _ (holds_entrusted k parcel callback (lodged.holds k parcel live) heard)
      · exact deal_entrusted deal x (answered.queued x old)
    · rw [frees]
      exact fun x member => deal_requested deal x (answered.called x member)
  · constructor
    · rw [handed, frees, answered.balance, pledges, Multiset.map_cons, List.map_cons, ← Multiset.cons_coe, Multiset.cons_add,
        Multiset.add_cons]
    · exact fun y member => deal_entrusted deal y (answered.queued y (by rw [pledges]; exact Multiset.mem_cons_of_mem member))
    · rw [frees]
      intro y member
      rcases List.mem_cons.mp member with rfl | old
      · rcases answered.queued y (by rw [pledges]; exact Multiset.mem_cons_self y _) with requested | ⟨b, bids, -⟩
        · exact deal_requested deal y requested
        · cases bids.symm.trans idle
      · exact deal_requested deal y (answered.called y old)

structure Sound (size : Nat) (t : Custody) : Prop where
  housed : t.Housed size
  numbered : t.Numbered
  tallied : t.Tallied
  lodged : t.Lodged
  answered : t.Answered

theorem deal_sound (deal : Deal t t') (sound : t.Sound size) : t'.Sound size where
  housed := deal_housed deal sound.housed
  numbered := deal_numbered deal sound.numbered
  tallied := deal_tallied deal sound.housed sound.tallied
  lodged := deal_lodged deal sound.housed sound.numbered sound.lodged
  answered := deal_answered deal sound.lodged sound.answered

theorem deals_sound (deals : Deals t t') (sound : t.Sound size) : t'.Sound size := by
  induction deals with
  | refl => exact sound
  | tail _ deal held => exact deal_sound deal held

theorem completions_taken (sound : t.Sound size) : t.completions ≤ t.taken.length :=
  le_trans sound.lodged.counted (List.subperm_of_subset sound.lodged.once sound.lodged.began).length_le

theorem frees_once (sound : t.Sound size) : (t.frees.map (·.1)).Nodup := by
  have handed : t.handed.Nodup := sound.lodged.once.sublist (filterMap_sublist _ _ _ fun x n handed => by
    unfold Happening.handed? at handed
    split at handed
    · exact handed
    · cases handed)
  have whole : (t.handed : Multiset Nat).Nodup := Multiset.coe_nodup.mpr handed
  rw [sound.answered.balance] at whole
  exact Multiset.coe_nodup.mp (Multiset.nodup_add.mp whole).2.1

theorem freed_once (sound : t.Sound size) : (t.history.filterMap Happening.freed?).Nodup := by
  have once := frees_once sound
  rw [frees, List.map_filterMap] at once
  have same : (fun x : Happening => x.freeing?.map (·.1)) = Happening.freed? := funext fun x => x.freed_freeing.symm
  rw [same] at once
  exact once

end Custody

end HubRelay
