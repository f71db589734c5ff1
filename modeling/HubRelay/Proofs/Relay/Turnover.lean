import HubRelay.Proofs.Relay.Dockets
import HubRelay.Proofs.Relay.RetryReach

/-! How messages get on, one step at a time: which of those that wait in the link is completed, what is queued behind
what, and in which order a loop takes it up. -/

set_option autoImplicit false

namespace HubRelay

namespace Docket

def push (i : Nat) (x : Errand) (work : Nat → List Errand) : Nat → List Errand := Function.update work i (work i ++ [x])

/-- The link completes messages as they waited. Those that are not left to it may be completed by anyone in any order,
and any message may be tried again unasked (`loose`). -/
inductive Advance (left : Nat → Prop) (loose : Prop) : Docket → Docket → Prop
  | ease {d d' : Docket} (eases : d.Eases d') : Advance left loose d d'
  -- The message that had the number is refused.
  | spend {d : Docket} (n : Nat) (serial : d.serial = some n) : Advance left loose d { d with serial := some (n + 1) }
  | send {d : Docket} (n : Nat) (badge : Badge) (dispatch : Dispatch Action) (k : Handle) (serial : d.serial = some n) :
      Advance left loose d { d with
        serial := some (n + 1)
        waiting := d.waiting ++ [n]
        told := .offered n badge dispatch (.sent k) :: d.told }
  | deliver {d : Docket} (n : Nat) (a : Arrival) (i : Nat) (badge : Badge) (k : Handle) (e : Event)
      (serial : d.serial = some n) :
      Advance left loose d { d with
        serial := some (n + 1)
        work := push i (.event k n e) d.work
        told := .arrived n a .delivered :: .posted n i badge :: d.told }
  | putOff {d : Docket} (n : Nat) (a : Arrival) (k : Handle) (serial : d.serial = some n) :
      Advance left loose d { d with
        serial := some (n + 1)
        work := push 0 (.retry k n) d.work
        told := .arrived n a .deferred :: d.told }
  | complete {d : Docket} (n : Nat) (fate : Completion) (w : List Nat) (ended : ∀ i, fate ≠ .handed i)
      (less : w.Sublist d.waiting) (turn : left n → (n :: w).Sublist d.waiting) :
      Advance left loose d { d with waiting := w, told := .completed n fate :: d.told }
  | hand {d : Docket} (n i : Nat) (k : Handle) (callback : FreeCallback Action) (payload : Payload) (w : List Nat)
      (attached : d.attached i = true) (less : w.Sublist d.waiting) (turn : left n → (n :: w).Sublist d.waiting) :
      Advance left loose d { d with
        waiting := w
        work := push i (.handBack k n callback payload) d.work
        told := .completed n (.handed i) :: d.told }
  | repost {d : Docket} (j n : Nat) (k : Handle) (rest : List Errand) (i : Nat) (e : Event) (badge : Badge)
      (first : d.work j = .retry k n :: rest) :
      Advance left loose d { d with
        work := push i (.event k n e) (Function.update d.work j rest)
        told := .posted n i badge :: d.told }
  | post {d : Docket} (n i : Nat) (k : Handle) (e : Event) (badge : Badge) (unasked : loose) :
      Advance left loose d { d with work := push i (.event k n e) d.work, told := .posted n i badge :: d.told }
  -- A retry comes to nothing, or an event.
  | skip {d : Docket} (j : Nat) (x : Errand) (rest : List Errand) (first : d.work j = x :: rest) (idle : x.pledge? = none) :
      Advance left loose d { d with work := Function.update d.work j rest }
  | pass {d : Docket} (j n : Nat) (k : Handle) (e : Event) (rest : List Errand) (badge : Badge)
      (first : d.work j = .event k n e :: rest) (bears : e.bears k n) :
      Advance left loose d { d with work := Function.update d.work j rest, told := .passed j badge e :: d.told }
  | free {d : Docket} (j n : Nat) (k : Handle) (callback : FreeCallback Action) (payload : Payload) (rest : List Errand)
      (first : d.work j = .handBack k n callback payload :: rest) :
      Advance left loose d { d with work := Function.update d.work j rest, told := .freed n callback payload :: d.told }
  | letGo {d : Docket} (j : Nat) :
      Advance left loose d { d with work := Function.update d.work j [], attached := Function.update d.attached j false }

abbrev Advances (left : Nat → Prop) (loose : Prop) : Docket → Docket → Prop := Relation.ReflTransGen (Advance left loose)

variable {left : Nat → Prop} {loose : Prop} {d d' d'' : Docket}

theorem advances_to (advances : Advances left loose d d') (same : d'' = d') : Advances left loose d d'' := by
  rw [same]
  exact advances

theorem advances_invariant (P : Docket → Prop) (advances : Advances left loose d d')
    (kept : ∀ d d', Advance left loose d d' → P d → P d') (first : P d) : P d' := by
  induction advances with
  | refl => exact first
  | tail _ advance held => exact kept _ _ advance held

end Docket

open Docket

variable {left : Nat → Prop} {loose : Prop} {handles rest : List Handle}

namespace Hub

theorem advances_ease {h h' : Hub} (eases : h.Eases h') : Advances left loose (h.docket handles) (h'.docket handles) :=
  .single (.ease (eases handles))

theorem docket_count (h : Hub) (f : RelayTally → RelayTally) : (h.count f).docket handles = h.docket handles := by
  unfold count onRelay docket number? live?
  cases h.relay <;> rfl

theorem docket_record (h : Hub) (x : Happening) (moves : x.moves = true) :
    (h.record x).docket handles = { h.docket handles with told := x :: (h.docket handles).told } := by
  simp only [docket, record, List.filter_cons_of_pos moves]
  rfl

theorem docket_passSerial (h : Hub) (n : Nat) (serial : (h.docket handles).serial = some n) :
    h.passSerial.docket handles = { h.docket handles with serial := some (n + 1) } := by
  obtain ⟨r, relay, rfl⟩ := Option.map_eq_some_iff.mp serial
  simp only [passSerial, onRelay, docket, number?, live?, relay]
  rfl

theorem docket_relay (h : Hub) (r r' : Relay) (relay : h.relay = some r) (serial : r'.serial = r.serial) :
    ({ h with relay := some r' } : Hub).docket rest =
      { h.docket handles with waiting := (({ h with relay := some r' } : Hub).docket rest).waiting } := by
  simp only [docket, relay, Option.map_some, serial]
  rfl

theorem docket_enqueue (h next : Hub) (i : Nat) (t : Task) (x : Errand) (errand : t.errand? = some x)
    (queued : h.enqueue i t = .ok next) :
    next.docket handles = { h.docket handles with work := push i x (h.docket handles).work } ∧ h.attached i = true := by
  obtain ⟨l, after, place, taken, rfl⟩ := enqueue_cases h next i t queued
  have change := RunLoop.enqueue_cases t l after taken
  obtain ⟨work, attached⟩ := place_work h i l place
  have more : after.queue.toList.filterMap Task.errand? = h.work i ++ [x] := by
    rw [change, work]
    simp only [Fifo.toList_push, List.filterMap_append, List.filterMap_cons_some errand, List.filterMap_nil]
  have still := attached_kept h i l after place (by rw [change])
  refine ⟨?_, ?_⟩
  · have grown : ({ h with loops := h.loops.set i after } : Hub).work = push i x h.work := by
      rw [work_set h i l after place, more]
      rfl
    simp only [docket, grown, still]
    rfl
  · rw [attached]
    unfold RunLoop.enqueue at taken
    split at taken
    · cases taken
    · split at taken
      · cases taken
      · split at taken
        · cases taken
        · next taking => simpa using taking

theorem number_retired (h : Hub) (k k' : Handle) (r : Relay) (parcel : Parcel) (relay : h.relay = some r)
    (live : r.pool.live? k = some parcel) : (h.retired k r).number? k' = if k' = k then none else h.number? k' := by
  rw [number_relay h r relay, number_relay (h.retired k r) _ rfl, SlotPool.put_live r.pool k k' parcel live]
  split <;> rfl

theorem eases_retired (h : Hub) (k : Handle) (r : Relay) (parcel : Parcel) (relay : h.relay = some r)
    (live : r.pool.live? k = some parcel) : h.Eases (h.retired k r) := by
  refine eases_relay h _ h.journal (by rw [relay]; rfl) fun k' n lives => ?_
  have number := number_retired h k k' r parcel relay live
  rw [show (h.retired k r).number? k' = some n from lives] at number
  split at number
  · cases number
  · exact number.symm

theorem waiting_cons (h : Hub) (k : Handle) :
    (h.docket (k :: rest)).waiting = (h.number? k).toList ++ (h.docket rest).waiting := by
  simp only [docket, List.filterMap_cons]
  cases h.number? k <;> rfl

theorem waiting_turn (h h₁ : Hub) (k : Handle) (n : Nat) (number : h.number? k = some n) (eases : h.Eases h₁)
    (turn : handles = k :: rest ∨ handles = rest ∧ ¬left n) :
    (h₁.docket rest).waiting.Sublist (h.docket handles).waiting ∧
      (left n → (n :: (h₁.docket rest).waiting).Sublist (h.docket handles).waiting) := by
  rcases turn with rfl | ⟨rfl, other⟩
  · rw [waiting_cons, number]
    exact ⟨(eases rest).waiting.cons n, fun _ => (eases rest).waiting.cons_cons n⟩
  · exact ⟨(eases handles).waiting, fun own => absurd own other⟩

theorem complete_ends (h h₁ : Hub) (k : Handle) (n : Nat) (fate : Completion) (number : h.number? k = some n)
    (eases : h.Eases h₁) (ended : ∀ i, fate ≠ .handed i) (turn : handles = k :: rest ∨ handles = rest ∧ ¬left n) :
    Advances left loose (h.docket handles) ((h₁.record (.completed n fate)).docket rest) := by
  have told : h₁.history.filter Happening.moves = h.history.filter Happening.moves := (eases rest).told
  obtain ⟨less, turned⟩ := waiting_turn h h₁ k n number eases turn
  refine .tail (.single (.complete n fate (h₁.docket rest).waiting ended less turned)) (.ease ?_)
  rw [docket_record h₁ _ rfl]
  exact ⟨(eases rest).serial, .refl _, (eases rest).work, (eases rest).attached, congrArg (Happening.completed n fate :: ·) told⟩

theorem complete_advances (k : Handle) (h : Hub)
    (turn : handles = k :: rest ∨ handles = rest ∧ ∀ n, h.number? k = some n → ¬left n) :
    Advances left loose (h.docket handles) ((h.complete k).docket rest) := by
  cases live : h.live? k with
  | none =>
      have passed : h.number? k = none := by rw [number?, live]; rfl
      rw [complete_stale k h live, docket_count]
      rcases turn with rfl | ⟨rfl, -⟩
      · have rest' := @waiting_cons rest h k
        rw [passed] at rest'
        exact advances_to .refl (congrArg (fun w => { h.docket rest with waiting := w }) rest'.symm)
      · exact .refl
  | some parcel =>
      obtain ⟨r, relay, lives⟩ := Option.bind_eq_some_iff.mp live
      have number : h.number? k = some parcel.serial := by rw [number?, live]; rfl
      have turn' : handles = k :: rest ∨ handles = rest ∧ ¬left parcel.serial :=
        turn.imp_right fun aside => ⟨aside.1, aside.2 _ number⟩
      have retired := eases_retired h k r parcel relay lives
      rw [complete_live h k r parcel relay lives]
      cases parcel.callback with
      | none =>
          exact complete_ends h _ k parcel.serial .released number (eases_trans retired (eases_reclaim _ k)) (by simp) turn'
      | some callback =>
          simp only
          split
          · next next queued =>
              obtain ⟨queue, attached⟩ := @docket_enqueue rest _ next _ _ _ rfl queued
              have taken : (h.retired k r).docket rest =
                  { h.docket handles with waiting := ((h.retired k r).docket rest).waiting } := docket_relay h r _ relay rfl
              obtain ⟨less, turned⟩ := waiting_turn h _ k parcel.serial number retired turn'
              refine advances_to (.single (.hand parcel.serial (h.home parcel.message.app) k callback parcel.message.payload
                ((h.retired k r).docket rest).waiting attached less turned)) ?_
              rw [docket_record next _ rfl, queue, taken]
          · exact complete_ends h _ k parcel.serial _ number
              (eases_trans retired (eases_trans (eases_count ((h.retired k r).note (.freeDropped callback.label)) _)
                (eases_reclaim _ k))) (by simp) turn'

/-- Handles tell messages apart: what a queued retry still finds is the message it was queued for, and no slot is handed
out under a handle that waits in the link. -/
structure Clear (handles : List Handle) (h : Hub) : Prop where
  sound : ∀ r, h.relay = some r → r.pool.Sound
  named : ∀ i k n m, .retry k n ∈ h.work i → h.number? k = some m → m = n
  fresh : ∀ r parcel k pool, h.relay = some r → r.pool.allocate parcel = some (k, pool) → k ∉ handles

section Allocation

variable {h : Hub} {r : Relay} {parcel : Parcel} {k : Handle} {pool : SlotPool Parcel} (clear : h.Clear handles)
  (relay : h.relay = some r) (allocated : r.pool.allocate parcel = some (k, pool))

include clear relay allocated

theorem number_lent (k' : Handle) :
    h.number? k = none ∧ (h.lent pool r).number? k' = if k' = k then some parcel.serial else h.number? k' := by
  obtain ⟨vacant, lives⟩ := SlotPool.allocated_live parcel r.pool pool k k' (clear.sound r relay) allocated
  rw [number_relay h r relay, number_relay h r relay, number_relay (h.lent pool r) _ rfl, vacant, lives]
  refine ⟨rfl, ?_⟩
  split <;> rfl

theorem docket_lent : (h.lent pool r).docket handles = h.docket handles := by
  have waiting : ((h.lent pool r).docket handles).waiting = (h.docket handles).waiting := by
    refine List.filterMap_congr fun k' waits => ?_
    rw [(number_lent clear relay allocated k').2, if_neg]
    rintro rfl
    exact clear.fresh r parcel k' pool relay allocated waits
  have lent : (h.lent pool r).docket handles = { h.docket handles with waiting := ((h.lent pool r).docket handles).waiting } :=
    docket_relay h r _ relay rfl
  rw [lent, waiting]

theorem eases_bounced : h.Eases ((h.lent pool r).reclaim k) := by
  have number := number_reclaim (h.lent pool r) k
  obtain ⟨journal, reclaimed⟩ := (h.lent pool r).reclaim_cases k
  rw [reclaimed] at number ⊢
  refine eases_relay h _ journal (by rw [relay]; rfl) fun k' n lives => ?_
  have still := (number k').symm.trans lives
  rw [(number_lent clear relay allocated k').2] at still
  split at still
  · cases still
  · exact still

end Allocation

theorem spent_advances (h h₁ : Hub) (n : Nat) (eases : h.Eases h₁) (serial : (h₁.docket handles).serial = some n) :
    Advances left loose (h.docket handles) (h₁.passSerial.docket handles) := by
  rw [docket_passSerial h₁ n serial]
  exact .tail (advances_ease eases) (.spend n serial)

theorem rejected_advances (h g : Hub) (n : Nat) (a : Arrival) (failure : RouteFailure) (eases : h.Eases g)
    (serial : (g.docket handles).serial = some n) : Advances left loose (h.docket handles)
      (((g.count (RelayTally.countRouting (.rejected failure))).record (.arrived n a (.rejected failure))).passSerial.docket
        handles) := by
  refine spent_advances h _ n (eases_trans eases (eases_trans (eases_count g _) (eases_record _ _ rfl))) ?_
  rw [← serial, ← docket_count g (RelayTally.countRouting (.rejected failure))]
  rfl

theorem docket_numbered (g : Hub) (n : Nat) (x : Happening) (serial : (g.docket handles).serial = some n)
    (moves : x.moves = true) :
    ((g.record x).passSerial).docket handles =
      { g.docket handles with serial := some (n + 1), told := x :: (g.docket handles).told } := by
  have told := @docket_record handles g x moves
  rw [docket_passSerial _ n (by rw [told]; exact serial), told]

theorem docket_arrived (g : Hub) (n : Nat) (a : Arrival) (routing : Routing) (serial : (g.docket handles).serial = some n)
    (moves : (Happening.arrived n a routing).moves = true) :
    (((g.count (RelayTally.countRouting routing)).record (.arrived n a routing)).passSerial).docket handles =
      { g.docket handles with serial := some (n + 1), told := .arrived n a routing :: (g.docket handles).told } := by
  rw [docket_numbered _ n _ (by rw [docket_count]; exact serial) moves, docket_count]

theorem route_advances (h : Hub) (r : Relay) (a : Arrival) (clear : h.Clear handles) (relay : h.relay = some r) :
    Advances left loose (h.docket handles)
      (((((h.route a r).2.count (RelayTally.countRouting (h.route a r).1)).record
        (.arrived r.serial a (h.route a r).1)).passSerial).docket handles) := by
  have serial : ∀ g : Hub, g.relay.map (·.serial) = some r.serial → (g.docket handles).serial = some r.serial :=
    fun _ same => same
  have here := serial h (by rw [relay]; rfl)
  rcases route_cases h r a with ⟨failure, refused⟩ | ⟨k, pool, allocated, routed⟩
  · rw [refused]
    exact rejected_advances h h r.serial a failure (eases_refl h) here
  · have lent := docket_lent clear relay allocated
    have bounced := @rejected_advances left loose handles h _ r.serial a .unavailable (eases_bounced clear relay allocated)
      (serial _ (relay_reclaim (h.lent pool r) k))
    rw [routed]
    rcases attempt_cases (h.lent pool r) k ⟨a.message, none, r.serial⟩ with
      ⟨-, attempted⟩ | ⟨i, badge, -, ⟨next, queued, attempted⟩ | ⟨failure, -, attempted⟩⟩
    · simp only [attempted, putOff]
      split
      · next next queued =>
          obtain ⟨queue, -⟩ := @docket_enqueue handles _ next 0 _ _ rfl queued
          refine advances_to (.single (.putOff r.serial a k here)) ?_
          rw [docket_arrived next _ _ _ (by rw [queue]; rfl) rfl, queue, lent]
      · exact bounced
    · obtain ⟨queue, -⟩ := @docket_enqueue handles _ next i _ _ rfl queued
      simp only [attempted]
      refine advances_to (.single (.deliver r.serial a i badge k (Parcel.event k badge.inst ⟨a.message, none, r.serial⟩)
        here)) ?_
      rw [docket_arrived (next.record _) _ _ _ (by rw [docket_record next _ rfl, queue]; rfl) rfl, docket_record next _ rfl,
        queue, lent]
    · simp only [attempted]
      exact bounced

theorem receive_advances (h next : Hub) (a : Arrival) (routing : Routing) (clear : h.Clear handles)
    (received : h.receive a = some (routing, next)) : Advances left loose (h.docket handles) (next.docket handles) := by
  obtain ⟨r, relay, same⟩ := Option.map_eq_some_iff.mp received
  cases same
  exact route_advances h r a clear relay

theorem eases_refused (h : Hub) (k : Handle) (x : Happening) (still : x.moves = false) : h.Eases ((h.reclaim k).record x) :=
  eases_trans (eases_reclaim h k) (eases_record _ x still)

theorem retry_docket (k : Handle) (h : Hub) :
    h.Eases (h.retry k).2 ∨ ∃ n i e badge, h.number? k = some n ∧
      (h.retry k).2.docket handles = { h.docket handles with
        work := push i (.event k n e) (h.docket handles).work
        told := .posted n i badge :: (h.docket handles).told } := by
  cases live : h.live? k with
  | none =>
      rw [retry_stale k h live]
      exact .inl (eases_refl h)
  | some parcel =>
      have found : h.relay.bind (·.pool.live? k) = some parcel := live
      rcases attempt_cases h k parcel with
        ⟨-, attempted⟩ | ⟨i, badge, -, ⟨next, queued, attempted⟩ | ⟨failure, -, attempted⟩⟩
      · simp only [retry, found, attempted]
        exact .inl (eases_trans (eases_count h _) (eases_refused _ k _ rfl))
      · obtain ⟨queue, -⟩ := @docket_enqueue handles h next i _ (.event k parcel.serial (parcel.event k badge.inst)) rfl queued
        refine .inr ⟨parcel.serial, i, parcel.event k badge.inst, badge, by rw [number?, live]; rfl, ?_⟩
        simp only [retry, found, attempted]
        rw [docket_count, docket_record next _ rfl, queue]
      · simp only [retry, found, attempted]
        exact .inl (eases_refused h k _ rfl)

theorem retry_advances (d : Docket) (h : Hub) (j n : Nat) (k : Handle) (rest : List Errand)
    (named : ∀ m, h.number? k = some m → m = n) (first : d.work j = .retry k n :: rest)
    (popped : h.docket handles = { d with work := Function.update d.work j rest }) :
    Advances left loose d ((h.retry k).2.docket handles) := by
  rcases @retry_docket handles k h with eases | ⟨m, i, e, badge, number, posted⟩
  · refine .tail (.single (.skip j _ rest first rfl)) (.ease ?_)
    rw [← popped]
    exact eases handles
  · refine advances_to (.single (.repost j n k rest i e badge first)) ?_
    rw [posted, popped, named m number]

theorem unasked_advances (k : Handle) (h : Hub) (unasked : loose) :
    Advances left loose (h.docket handles) ((h.retry k).2.docket handles) := by
  rcases @retry_docket handles k h with eases | ⟨n, i, e, badge, -, posted⟩
  · exact advances_ease eases
  · exact advances_to (.single (.post n i k e badge unasked)) posted

end Hub

end HubRelay
