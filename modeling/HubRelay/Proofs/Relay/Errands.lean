import HubRelay.Proofs.Relay.AnyLink

/-! What the handles of queued and begun work still name, while no generation of a slot came round again. -/

set_option autoImplicit false

namespace HubRelay

def Errand.retrying? : Errand → Option Nat
  | .retry _ n => some n
  | _ => none

def Happening.arrived? : Happening → Option Nat
  | .arrived n _ _ => some n
  | _ => none

namespace Happening

theorem arrived_serial (x : Happening) (n : Nat) (arrived : x.arrived? = some n) : x.serial? = some n := by
  cases x <;> first | exact arrived | cases arrived

end Happening

namespace SlotPool

variable {α : Type}

def Issued (k : Handle) (p : SlotPool α) : Prop :=
  ∃ generation, p.generation? k.slot = some generation ∧ k.generation.toNat ≤ generation.toNat

theorem issued_live (p : SlotPool α) (k : Handle) (a : α) (live : p.live? k = some a) : p.Issued k := by
  have place := (state_place k p _).mp ((live_state k a p).mp live)
  rw [Array.getElem?_toList] at place
  exact ⟨k.generation, by rw [generation?, place, Option.map_some], le_rfl⟩

theorem issued_allocated (a : α) (p next : SlotPool α) (k : Handle) (sound : p.Sound)
    (allocated : p.allocate a = some (k, next)) (few : p.allotted + 1 < generations) :
    ¬p.Issued k ∧ ∀ k', p.Issued k' → next.Issued k' := by
  obtain ⟨-, slot, place, counts⟩ := allotted_allocated a p next k sound allocated few
  have before : p.generation? k.slot = some slot.generation := by rw [generation?, place, Option.map_some]
  constructor
  · rintro ⟨generation, own, below⟩
    cases before.symm.trans own
    omega
  · rintro k' ⟨generation, own, below⟩
    obtain ⟨-, -, -, slots, -⟩ := allocate_place a p next k sound allocated
    obtain ⟨bound, -⟩ := Array.getElem?_eq_some_iff.mp place
    by_cases same : k'.slot = k.slot
    · rw [same, before] at own
      cases own
      refine ⟨k.generation, ?_, by omega⟩
      rw [generation?, slots, same, Array.getElem?_setIfInBounds_self_of_lt bound, Option.map_some]
    · refine ⟨generation, ?_, below⟩
      rw [generation?, slots, Array.getElem?_setIfInBounds_ne (Ne.symm same)]
      exact own

end SlotPool

namespace Custody

variable {t t' : Custody} {size : Nat}

def Few (t : Custody) : Prop := t.taken.length < generations

theorem deal_few (deal : Deal t t') (few : t'.Few) : t.Few := by
  rcases deal_slots deal with ⟨same, -⟩ | ⟨more, -⟩
  · rw [Few, ← same]
    exact few
  · rw [Few, more, List.length_cons] at few
    exact Nat.lt_of_succ_lt few

theorem slot_few (tallied : t.Tallied) (few : t'.Few) (p : SlotPool Parcel) (alive : t.pool = some p)
    (more : t'.taken = t.serial :: t.taken) : p.allotted + 1 < generations := by
  rw [Few, more, List.length_cons] at few
  rw [tallied (Nat.lt_of_succ_lt few) p alive]
  exact few

theorem deal_issued (deal : Deal t t') (sound : t.Sound size) (few : t'.Few) (p' : SlotPool Parcel) (alive' : t'.pool = some p') :
    ∃ p, t.pool = some p ∧ ∀ k, p.Issued k → p'.Issued k := by
  have same : ∀ (p next : SlotPool Parcel) k, (∀ i, next.generation? i = p.generation? i) → p.Issued k → next.Issued k := by
    rintro p next k kept ⟨generation, own, below⟩
    exact ⟨generation, (kept k.slot).trans own, below⟩
  rcases deal_slots deal with ⟨-, pools⟩ | ⟨more, p, parcel, k, next, alive, allocated, counts⟩
  · obtain ⟨p, alive, kept⟩ := pools p' alive'
    exact ⟨p, alive, fun k => same p p' k kept⟩
  · have room := slot_few sound.tallied few p alive more
    obtain ⟨-, later⟩ := SlotPool.issued_allocated parcel p next k (sound.housed p alive).1 allocated room
    exact ⟨p, alive, fun k' issued => same next p' k' (counts p' alive') (later k' issued)⟩

theorem granted_room (deal : Deal t t') (sound : t.Sound size) (few : t'.Few) (k : Handle) (parcel : Parcel)
    (granted : Granted t t' k parcel) (p : SlotPool Parcel) (alive : t.pool = some p) : p.allotted + 1 < generations := by
  have more : t'.taken = t.serial :: t.taken := by
    rcases deal_slots deal with ⟨same, -⟩ | ⟨more, -⟩
    · have took := holds_taken k parcel granted.holds
      rw [same, granted.serial] at took
      exact absurd granted.serial (granted_fresh sound.numbered k parcel _ granted took)
    · exact more
  exact slot_few sound.tallied few p alive more

theorem granted_unissued (deal : Deal t t') (sound : t.Sound size) (few : t'.Few) (k : Handle) (parcel : Parcel)
    (granted : Granted t t' k parcel) (p : SlotPool Parcel) (alive : t.pool = some p) : ¬p.Issued k := by
  obtain ⟨p₀, next, alive₀, allocated, -⟩ := granted.taken
  cases alive.symm.trans alive₀
  exact (SlotPool.issued_allocated parcel p next k (sound.housed p alive).1 allocated
    (granted_room deal sound few k parcel granted p alive)).1

structure Marked (t : Custody) : Prop where
  issued : ∀ p, t.pool = some p → ∀ i x, (i, x) ∈ t.errands → p.Issued x.holding.1
  -- What an errand's handle still names is what the errand is for.
  named : ∀ i x parcel, (i, x) ∈ t.errands → t.live? x.holding.1 = some parcel → x.arrival? = some parcel.serial

-- How an errand came to be: from another under the same handle, from a message that was live, or with a new one.
inductive Begun (t t' : Custody) (x : Errand) : Prop
  | before (i : Nat) (y : Errand) (member : (i, y) ∈ t.errands) (handle : y.holding.1 = x.holding.1)
      (arrival : y.arrival? = x.arrival?)
  | asked (parcel : Parcel) (live : t.live? x.holding.1 = some parcel) (arrival : x.arrival? = some parcel.serial)
      (asked : t'.asked = parcel :: t.asked)
  | handed (parcel : Parcel) (live : t.live? x.holding.1 = some parcel) (gone : t'.live? x.holding.1 = none)
      (arrival : x.arrival? = none)
  | arrived (a : Arrival) (routing : Routing) (parcel : Parcel) (granted : Granted t t' x.holding.1 parcel)
      (arrival : x.arrival? = some parcel.serial) (told : .arrived parcel.serial a routing ∈ t'.history)

theorem deal_begun (deal : Deal t t') (marked : t.Marked) (i : Nat) (x : Errand) (member : (i, x) ∈ t'.errands) :
    Begun t t' x := by
  have same : (i, x) ∈ t.errands → Begun t t' x := fun old => .before i x old rfl rfl
  cases deal with
  | remark | refuse | lend | accept | withdraw | settle | turnDown | bounce | bereave => exact same member
  | hand p parcel k callback j alive live heard =>
      rcases Multiset.mem_cons.mp member with own | old
      · cases own
        refine .handed parcel (Option.bind_eq_some_iff.mpr ⟨p, alive, live⟩) ?_ rfl
        change (p.put k .retiring).live? k = none
        rw [SlotPool.put_live p k k parcel live, if_pos rfl]
      · exact same old
  | deliver a p next k j badge alive idle allocated =>
      rcases Multiset.mem_cons.mp member with own | old
      · cases own
        exact .arrived a .delivered _ ⟨⟨p, next, alive, allocated, rfl⟩, idle, rfl,
          .inl (.inr ⟨a, .delivered, List.mem_cons_self, trivial, rfl, rfl⟩), fun _ => ⟨_, _, Multiset.mem_cons_self _ _, rfl, rfl⟩⟩
          rfl List.mem_cons_self
      · exact same old
  | putOff a p next k alive idle allocated =>
      rcases Multiset.mem_cons.mp member with own | old
      · cases own
        exact .arrived a .deferred _ ⟨⟨p, next, alive, allocated, rfl⟩, idle, rfl,
          .inl (.inr ⟨a, .deferred, List.mem_cons_self, trivial, rfl, rfl⟩), fun _ => ⟨_, _, Multiset.mem_cons_self _ _, rfl, rfl⟩⟩
          rfl List.mem_cons_self
      · exact same old
  | ask p parcel k alive idle live =>
      rcases Multiset.mem_cons.mp member with own | old
      · cases own
        exact .asked parcel (Option.bind_eq_some_iff.mpr ⟨p, alive, live⟩) rfl rfl
      · exact same old
  | repost j n k es p parcel j' badge idle work alive live =>
      rcases Multiset.mem_cons.mp member with own | old
      · cases own
        have queued : (j, .retry k n) ∈ t.errands := by simp [work]
        exact .before j _ queued rfl (marked.named j _ parcel queued (Option.bind_eq_some_iff.mpr ⟨p, alive, live⟩))
      · exact same (by rw [work]; exact Multiset.mem_cons_of_mem old)
  | fizzle j n k es idle work gone => exact same (by rw [work]; exact Multiset.mem_cons_of_mem member)
  | giveUp j y es idle work unpledged => exact same (by rw [work]; exact Multiset.mem_cons_of_mem member)
  | free j n k callback payload es idle work =>
      rcases Multiset.mem_cons.mp member with own | old
      · cases own
        exact .before i (.handBack k n callback payload) (by simp [work]) rfl rfl
      · exact same (by rw [work]; exact Multiset.mem_cons_of_mem old)
  | pass j n k e es idle work =>
      rcases Multiset.mem_cons.mp member with own | old
      · cases own
        exact .before i (.event k n e) (by simp [work]) rfl rfl
      · exact same (by rw [work]; exact Multiset.mem_cons_of_mem old)

theorem deal_named (deal : Deal t t') (sound : t.Sound size) (few : t'.Few) (marked : t.Marked) (i : Nat) (x : Errand)
    (parcel : Parcel) (member : (i, x) ∈ t'.errands) (live : t'.live? x.holding.1 = some parcel) :
    x.arrival? = some parcel.serial := by
  rcases deal_resident deal sound.housed _ parcel live with old | granted
  · cases deal_begun deal marked i x member with
    | before j y queued handle arrival =>
        rw [← arrival]
        apply marked.named j y parcel queued
        rw [handle]
        exact old
    | asked parcel' live' arrival =>
        cases old.symm.trans live'
        exact arrival
    | handed parcel' live' gone =>
        rw [live] at gone
        cases gone
    | arrived a routing parcel' granted =>
        rw [(granted_live sound.housed _ parcel' granted).1] at old
        cases old
  -- No earlier errand can name a slot that is handed out now.
  · have vacant := (granted_live sound.housed _ parcel granted).1
    cases deal_begun deal marked i x member with
    | before j y queued handle arrival =>
        obtain ⟨p, next, alive, -⟩ := granted.taken
        have issued := marked.issued p alive j y queued
        rw [handle] at issued
        exact absurd issued (granted_unissued deal sound few _ parcel granted p alive)
    | asked parcel' live' =>
        rw [vacant] at live'
        cases live'
    | handed parcel' live' =>
        rw [vacant] at live'
        cases live'
    | arrived a routing parcel' granted' arrival =>
        cases live.symm.trans (granted_here sound.housed _ parcel' granted')
        exact arrival

theorem deal_marked (deal : Deal t t') (sound : t.Sound size) (few : t'.Few) (marked : t.Marked) : t'.Marked := by
  refine ⟨fun p' alive' i x member => ?_, deal_named deal sound few marked⟩
  obtain ⟨p, alive, later⟩ := deal_issued deal sound few p' alive'
  have tenant : ∀ parcel, t.live? x.holding.1 = some parcel → p'.Issued x.holding.1 := by
    intro parcel live
    rw [live?, alive, Option.bind_some] at live
    exact later _ (p.issued_live _ parcel live)
  cases deal_begun deal marked i x member with
  | before j y old handle => exact handle ▸ later _ (marked.issued p alive j y old)
  | asked parcel live => exact tenant parcel live
  | handed parcel live => exact tenant parcel live
  | arrived a routing parcel granted =>
      have live := granted_here sound.housed _ parcel granted
      rw [live?, alive', Option.bind_some] at live
      exact p'.issued_live _ parcel live

-- Work for a message from the host goes back to its arrival, or to a retry that no callback made.
def Sourced (t : Custody) : Prop :=
  ∀ i x n, (i, x) ∈ t.errands → x.arrival? = some n →
    (∃ a routing, .arrived n a routing ∈ t.history) ∨ ∃ parcel ∈ t.asked, parcel.serial = n

theorem deal_asked (deal : Deal t t') (parcel : Parcel) (member : parcel ∈ t.asked) : parcel ∈ t'.asked := by
  cases deal with
  | ask => exact List.mem_cons_of_mem _ member
  | _ => exact member

theorem deal_sourced (deal : Deal t t') (marked : t.Marked) (sourced : t.Sourced) : t'.Sourced := by
  intro i x n member arrival
  cases deal_begun deal marked i x member with
  | before j y old handle same =>
      rcases sourced j y n old (same.trans arrival) with ⟨a, routing, told⟩ | ⟨parcel, named, serial⟩
      · exact .inl ⟨a, routing, deal_within deal _ told⟩
      · exact .inr ⟨parcel, deal_asked deal parcel named, serial⟩
  | asked parcel live own named =>
      rw [arrival] at own
      exact .inr ⟨parcel, by rw [named]; exact List.mem_cons_self, (Option.some.inj own).symm⟩
  | handed parcel live gone none =>
      rw [arrival] at none
      cases none
  | arrived a routing parcel granted own told =>
      rw [arrival] at own
      cases own
      exact .inl ⟨a, routing, told⟩

structure Kept (t : Custody) : Prop where
  sent : t.pool.isSome → ∀ n badge d k, .offered n badge d (.sent k) ∈ t.history → n ∉ t.completed →
    (∀ parcel ∈ t.asked, parcel.serial ≠ n) → ∃ parcel, t.live? k = some parcel ∧ parcel.serial = n
  bid : ∀ b, t.bid = some b → t.serial ∉ t.completed → ∃ parcel, t.live? b.handle = some parcel
  own : ∀ b parcel, t.bid = some b → t.live? b.handle = some parcel → parcel.serial = t.serial

theorem deal_sent (deal : Deal t t') (n : Nat) (badge : Badge) (d : Dispatch Action) (k : Handle)
    (member : .offered n badge d (.sent k) ∈ t'.history) :
    .offered n badge d (.sent k) ∈ t.history ∨
      n = t.serial ∧ t.bid = some ⟨badge, d, k⟩ ∧ t'.live? k = t.live? k ∧ t'.completed = t.completed := by
  cases deal with
  | lend | ask | fizzle | pass | giveUp | bereave => exact .inl member
  | remark x plain idle =>
      rcases List.mem_cons.mp member with rfl | old
      · cases plain.serial
      · exact .inl old
  | accept b alive bids =>
      rcases List.mem_cons.mp member with own | old
      · cases own
        exact .inr ⟨rfl, bids, rfl, rfl⟩
      · exact .inl old
  | deliver =>
      rcases List.mem_cons.mp member with own | later
      · cases own
      · rcases List.mem_cons.mp later with own | old
        · cases own
        · exact .inl old
  | refuse | withdraw | settle | hand | turnDown | bounce | putOff | repost | free =>
      rcases List.mem_cons.mp member with own | old
      · cases own
      · exact .inl old

theorem deal_bidding (deal : Deal t t') (b : Bid) (bids' : t'.bid = some b) :
    t'.serial = t.serial ∧ t'.pool.isSome ∧ (t.bid = some b ∨ ∃ parcel, Granted t t' b.handle parcel) := by
  cases deal with
  | settle | hand => exact ⟨rfl, rfl, .inl bids'⟩
  | lend badge d woke p next k alive idle allocated =>
      cases bids'
      exact ⟨rfl, rfl, .inr ⟨_, ⟨p, next, alive, allocated, rfl⟩, idle, rfl, .inr ⟨badge, d, woke, rfl, rfl⟩,
        fun arriving => nomatch arriving⟩⟩
  | remark | refuse | accept | withdraw | turnDown | bounce | deliver | putOff | ask | repost | fizzle | free | pass | giveUp |
      bereave => simp_all only [reduceCtorEq]

theorem completed_within (deal : Deal t t') (n : Nat) (open' : n ∉ t'.completed) : n ∉ t.completed := by
  rcases deal_completed deal with ⟨same, -⟩ | ⟨k, parcel, -, -, more, -⟩
  · rw [← same]
    exact open'
  · rw [more] at open'
    exact fun member => open' (List.mem_cons_of_mem _ member)

theorem offered_unique (numbered : t.Numbered) (n : Nat) (badge : Badge) (d : Dispatch Action) (answer : Reply) (x : Happening)
    (offered : .offered n badge d answer ∈ t.history) (member : x ∈ t.history) (serial : x.serial? = some n) :
    x = .offered n badge d answer :=
  Traffic.numbered_unique t.history (List.nodup_append.mp numbered.apart).2.1 x _ n member offered serial rfl

theorem bidding_fresh (numbered : t.Numbered) (b : Bid) (bids : t.bid = some b) (x : Happening) (member : x ∈ t.history) :
    x.serial? ≠ some t.serial := by
  intro serial
  have apart := numbered.apart
  rw [numbers, bidding_offering b bids, List.singleton_append, List.nodup_cons] at apart
  exact apart.1 (List.mem_filterMap.mpr ⟨x, member, serial⟩)

theorem kept_sent (deal : Deal t t') (sound : t.Sound size) (marked : t.Marked) (sourced : t.Sourced) (kept : t.Kept)
    (alive' : t'.pool.isSome) (n : Nat) (badge : Badge) (d : Dispatch Action) (k : Handle)
    (offered' : .offered n badge d (.sent k) ∈ t'.history) (open' : n ∉ t'.completed)
    (free' : ∀ parcel ∈ t'.asked, parcel.serial ≠ n) : ∃ parcel, t'.live? k = some parcel ∧ parcel.serial = n := by
  have unasked : ∀ parcel ∈ t.asked, parcel.serial ≠ n := fun parcel member => free' parcel (deal_asked deal parcel member)
  rcases deal_sent deal n badge d k offered' with offered | ⟨rfl, bids, same, completed⟩
  · have alive : t.pool.isSome := by
      rcases deal_numbers deal with ⟨-, living⟩ | ⟨alive, -⟩
      · exact (living alive').1
      · exact alive
    obtain ⟨parcel, live, rfl⟩ := kept.sent alive n badge d k offered (completed_within deal n open') unasked
    rcases deal_lost deal sound.housed k parcel live with live' | gone | done | ⟨b, bids, rfl, -⟩ | ⟨-, i, x, queued, rfl⟩
    · exact ⟨parcel, live', rfl⟩
    · rw [gone] at alive'
      cases alive'
    · exact absurd done open'
    · exact absurd (congrArg some (kept.own b parcel bids live)) (bidding_fresh sound.numbered b bids _ offered)
    -- The errand that gives the slot back is for an arrival, and this message did not arrive.
    · rcases sourced i x _ queued (marked.named i x parcel queued live) with ⟨a, routing, told⟩ | ⟨parcel', named, serial⟩
      · cases offered_unique sound.numbered _ badge d _ _ offered told rfl
      · exact absurd serial (unasked parcel' named)
  · rw [completed] at open'
    obtain ⟨parcel, live⟩ := kept.bid _ bids open'
    exact ⟨parcel, same.trans live, kept.own _ parcel bids live⟩

theorem kept_bid (deal : Deal t t') (sound : t.Sound size) (kept : t.Kept) (b : Bid) (bids' : t'.bid = some b)
    (open' : t'.serial ∉ t'.completed) : ∃ parcel, t'.live? b.handle = some parcel := by
  obtain ⟨serial, alive', bids | ⟨parcel, granted⟩⟩ := deal_bidding deal b bids'
  · rw [serial] at open'
    obtain ⟨parcel, live⟩ := kept.bid b bids (completed_within deal _ open')
    have own := kept.own b parcel bids live
    rcases deal_lost deal sound.housed b.handle parcel live with live' | gone | done | ⟨-, -, -, ended⟩ | ⟨idle, -⟩
    · exact ⟨parcel, live'⟩
    · rw [gone] at alive'
      cases alive'
    · rw [own] at done
      exact absurd done open'
    · rw [bids'] at ended
      cases ended
    · rw [bids] at idle
      cases idle
  · exact ⟨parcel, granted_here sound.housed b.handle parcel granted⟩

theorem kept_own (deal : Deal t t') (sound : t.Sound size) (kept : t.Kept) (b : Bid) (parcel : Parcel)
    (bids' : t'.bid = some b) (live' : t'.live? b.handle = some parcel) : parcel.serial = t'.serial := by
  obtain ⟨serial, -, bids | ⟨fresh, granted⟩⟩ := deal_bidding deal b bids'
  · rcases deal_resident deal sound.housed b.handle parcel live' with old | granted
    · exact (kept.own b parcel bids old).trans serial.symm
    · rw [granted.idle] at bids
      cases bids
  · cases live'.symm.trans (granted_here sound.housed b.handle fresh granted)
    exact granted.serial.trans serial.symm

theorem deal_kept (deal : Deal t t') (sound : t.Sound size) (marked : t.Marked) (sourced : t.Sourced)
    (kept : t.Kept) : t'.Kept where
  sent := kept_sent deal sound marked sourced kept
  bid := kept_bid deal sound kept
  own := kept_own deal sound kept

def Served (t : Custody) : Prop :=
  ∀ k parcel n, t.live? k = some parcel → parcel.tenure = .arriving n →
    ∃ i x, (i, x) ∈ t.errands ∧ x.holding.1 = k ∧ x.arrival? = some n

theorem tenure_serial (parcel : Parcel) (n : Nat) (arriving : parcel.tenure = .arriving n) : parcel.serial = n := by
  unfold Parcel.tenure at arriving
  split at arriving
  · cases arriving
  · cases arriving
    rfl

theorem deal_passed (deal : Deal t t') (k : Handle) (parcel : Parcel) (i : Nat) (x : Errand) (live' : t'.live? k = some parcel)
    (member : (i, x) ∈ t.errands) (handle : x.holding.1 = k) (arrival : x.arrival? = some parcel.serial) :
    ∃ j y, (j, y) ∈ t'.errands ∧ y.holding.1 = k ∧ y.arrival? = some parcel.serial := by
  cases deal with
  | remark | refuse | lend | accept | withdraw | settle | turnDown | bounce | bereave => exact ⟨i, x, member, handle, arrival⟩
  | hand | deliver | putOff | ask => exact ⟨i, x, Multiset.mem_cons_of_mem member, handle, arrival⟩
  | repost j n k' es p own i' badge idle work alive live =>
      rw [work] at member
      rcases Multiset.mem_cons.mp member with same | other
      · cases same
        obtain rfl : k' = k := handle
        have reads : t.pool.bind (·.live? k') = some own := by rw [alive]; exact live
        cases reads.symm.trans live'
        exact ⟨i', _, Multiset.mem_cons_self _ _, rfl, rfl⟩
      · exact ⟨i, x, Multiset.mem_cons_of_mem other, handle, arrival⟩
  | fizzle j n k' es idle work gone =>
      rw [work] at member
      rcases Multiset.mem_cons.mp member with same | other
      · cases same
        obtain rfl : k' = k := handle
        obtain ⟨p, alive, lives⟩ := Option.bind_eq_some_iff.mp live'
        rw [gone p alive] at lives
        cases lives
      · exact ⟨i, x, other, handle, arrival⟩
  | free j n k' callback payload es idle work =>
      rw [work] at member
      rcases Multiset.mem_cons.mp member with same | other
      · cases same
        cases arrival
      · exact ⟨i, x, Multiset.mem_cons_of_mem other, handle, arrival⟩
  | pass j n k' e es idle work =>
      rw [work] at member
      rcases Multiset.mem_cons.mp member with same | other
      · cases same
        exact ⟨i, _, Multiset.mem_cons_self _ _, handle, arrival⟩
      · exact ⟨i, x, Multiset.mem_cons_of_mem other, handle, arrival⟩
  | giveUp j y es idle work unpledged =>
      rw [work] at member
      rcases Multiset.mem_cons.mp member with same | other
      · cases same
        obtain ⟨q, emptied, lives⟩ := Option.bind_eq_some_iff.mp live'
        obtain ⟨p, -, rfl⟩ := Option.map_eq_some_iff.mp emptied
        rw [SlotPool.reclaimed_live, if_pos handle.symm] at lives
        cases lives
      · exact ⟨i, x, other, handle, arrival⟩

theorem deal_served (deal : Deal t t') (sound : t.Sound size) (served : t.Served) : t'.Served := by
  intro k parcel n live' arriving
  obtain rfl := tenure_serial parcel n arriving
  rcases deal_resident deal sound.housed k parcel live' with old | granted
  · obtain ⟨i, x, member, handle, arrival⟩ := served k parcel _ old arriving
    exact deal_passed deal k parcel i x live' member handle arrival
  · exact granted.work arriving

def posts (t : Custody) : List Nat := t.history.filterMap Happening.posted?

def retries (t : Custody) : Multiset Nat := t.errands.filterMap (·.2.retrying?)

def arrivals (t : Custody) : List Nat := t.history.filterMap Happening.arrived?

def named (t : Custody) : List Nat := t.asked.map (·.serial)

-- What was posted, and what may be without another step from outside.
def posting (t : Custody) : Multiset Nat := (t.posts : Multiset Nat) + t.retries

def causes (t : Custody) : Multiset Nat := (t.arrivals : Multiset Nat) + t.named

theorem deal_posting (deal : Deal t t') (marked : t.Marked) :
    (t'.posting ≤ t.posting ∧ t.causes ≤ t'.causes) ∨ ∃ n, t'.posting = n ::ₘ t.posting ∧ t'.causes = n ::ₘ t.causes := by
  have ended : ∀ (i : Nat) (x : Errand) es, t.errands = (i, x) ::ₘ es → es.filterMap (·.2.retrying?) ≤ t.retries := by
    intro i x es work
    rw [retries, work]
    exact Multiset.filterMap_le_filterMap _ (Multiset.le_cons_self es _)
  have turned : ∀ (i j : Nat) (x y : Errand) es, y.retrying? = none → t.errands = (j, x) ::ₘ es →
      ((i, y) ::ₘ es).filterMap (·.2.retrying?) ≤ t.retries := by
    intro i j x y es silent work
    rw [view_skip Errand.retrying? i y es silent]
    exact ended j x es work
  cases deal with
  | refuse | lend | accept | withdraw | settle | bereave => exact .inl ⟨le_rfl, le_rfl⟩
  | remark x plain idle =>
      have posts : (x :: t.history).filterMap Happening.posted? = t.posts := List.filterMap_cons_none plain.posted
      have arrivals : (x :: t.history).filterMap Happening.arrived? = t.arrivals :=
        List.filterMap_cons_none (x.plain_silent Happening.arrived? x.arrived_serial plain.serial)
      exact .inl ⟨(congrArg (fun told : List Nat => (told : Multiset Nat) + t.retries) posts).le,
        (congrArg (fun told : List Nat => (told : Multiset Nat) + t.named) arrivals).ge⟩
  | hand p parcel k callback i alive live heard =>
      exact .inl ⟨Multiset.add_le_add_left (view_skip Errand.retrying? i _ _ rfl).le, le_rfl⟩
  | turnDown | bounce => exact .inl ⟨le_rfl, Multiset.add_le_add_right (Multiset.le_cons_self _ _)⟩
  | fizzle j n k es idle work gone => exact .inl ⟨Multiset.add_le_add_left (ended j _ es work), le_rfl⟩
  | giveUp i x es idle work unpledged => exact .inl ⟨Multiset.add_le_add_left (ended i x es work), le_rfl⟩
  | free i n k callback payload es idle work => exact .inl ⟨Multiset.add_le_add_left (turned i i _ _ es rfl work), le_rfl⟩
  | pass i n k e es idle work => exact .inl ⟨Multiset.add_le_add_left (turned i i _ _ es rfl work), le_rfl⟩
  | deliver a p next k i badge alive idle allocated =>
      have kept := view_skip Errand.retrying? i (.event k t.serial (Parcel.event k badge.inst ⟨a.message, none, t.serial⟩)) t.errands rfl
      refine .inr ⟨t.serial, ?_, Multiset.cons_add t.serial (t.arrivals : Multiset Nat) t.named⟩
      exact (congrArg ((t.serial ::ₘ (t.posts : Multiset Nat)) + ·) kept).trans (Multiset.cons_add t.serial _ _)
  | putOff a p next k alive idle allocated =>
      have gained := view_gain Errand.retrying? 0 (.retry k t.serial) t.serial t.errands rfl
      refine .inr ⟨t.serial, ?_, Multiset.cons_add t.serial (t.arrivals : Multiset Nat) t.named⟩
      exact (congrArg ((t.posts : Multiset Nat) + ·) gained).trans (Multiset.add_cons t.serial _ _)
  | ask p parcel k alive idle live =>
      have gained := view_gain Errand.retrying? 0 (.retry k parcel.serial) parcel.serial t.errands rfl
      refine .inr ⟨parcel.serial, ?_, Multiset.add_cons parcel.serial (t.arrivals : Multiset Nat) t.named⟩
      exact (congrArg ((t.posts : Multiset Nat) + ·) gained).trans (Multiset.add_cons parcel.serial _ _)
  | repost j n k es p parcel i badge idle work alive live =>
      have queued : (j, .retry k n) ∈ t.errands := by simp [work]
      obtain rfl : n = parcel.serial :=
        Option.some.inj (marked.named j _ parcel queued (Option.bind_eq_some_iff.mpr ⟨p, alive, live⟩))
      have kept := view_skip Errand.retrying? i (.event k parcel.serial (parcel.event k badge.inst)) es rfl
      refine .inl ⟨?_, le_rfl⟩
      have moved : t.retries = _ := (congrArg (·.filterMap (·.2.retrying?)) work).trans (view_gain Errand.retrying? j _ _ es rfl)
      have before : t.posting = parcel.serial ::ₘ (t.posts : Multiset Nat) + es.filterMap (·.2.retrying?) := by
        rw [posting, moved, Multiset.add_cons, Multiset.cons_add]
      rw [before]
      exact Multiset.add_le_add_left kept.le

def Owed (t : Custody) : Prop := t.posting ≤ t.causes

theorem deal_owed (deal : Deal t t') (marked : t.Marked) (owed : t.Owed) : t'.Owed := by
  rcases deal_posting deal marked with ⟨posted, caused⟩ | ⟨n, posted, caused⟩
  · exact le_trans posted (le_trans owed caused)
  · rw [Owed, posted, caused]
    exact Multiset.cons_le_cons n owed

structure Tracked (t : Custody) : Prop where
  marked : t.Marked
  sourced : t.Sourced
  kept : t.Kept
  owed : t.Owed

theorem deal_tracked (deal : Deal t t') (sound : t.Sound size) (few : t'.Few) (tracked : t.Tracked) : t'.Tracked where
  marked := deal_marked deal sound few tracked.marked
  sourced := deal_sourced deal tracked.marked tracked.sourced
  kept := deal_kept deal sound tracked.marked tracked.sourced tracked.kept
  owed := deal_owed deal tracked.marked tracked.owed

theorem deals_tracked (deals : Deals t t') (sound : t.Sound size) (few : t'.Few) (tracked : t.Tracked) : t'.Tracked := by
  induction deals with
  | refl => exact tracked
  | tail before deal held => exact deal_tracked deal (deals_sound before sound) few (held (deal_few deal few))

theorem deals_served (deals : Deals t t') (sound : t.Sound size) (served : t.Served) : t'.Served := by
  induction deals with
  | refl => exact served
  | tail before deal held => exact deal_served deal (deals_sound before sound) held

end Custody

namespace Scene

theorem opening_tracked (size : Nat) (c : Scene) (opening : c.Opening size) : (c.custody []).Tracked := by
  rw [opening_custody size c opening]
  refine ⟨⟨?_, ?_⟩, ?_, ⟨?_, ?_, ?_⟩, le_rfl⟩
  · exact fun p alive i x member => absurd member (Multiset.notMem_zero _)
  · exact fun i x parcel member => absurd member (Multiset.notMem_zero _)
  · exact fun i x n member => absurd member (Multiset.notMem_zero _)
  · exact fun alive n badge d k member => absurd member List.not_mem_nil
  · rintro b ⟨⟩
  · rintro b parcel ⟨⟩

theorem opening_served (size : Nat) (c : Scene) (opening : c.Opening size) : (c.custody []).Served :=
  fun k parcel _ live => absurd live (opening_vacant size c opening k parcel)

end Scene

end HubRelay
