import HubRelay.Proofs.Relay.FreeCallbacks
import HubRelay.Proofs.Relay.Standing

/-! What becomes of the messages that a relay has taken in, whoever completes or retries them, and under whatever
handle: everything that can happen to them, one step at a time. -/

set_option autoImplicit false

namespace HubRelay

structure Bid where
  badge : Badge
  dispatch : Dispatch Action
  handle : Handle

structure Custody where
  -- Is `none` once the relay was dropped.
  pool : Option (SlotPool Parcel)
  serial : Nat
  completions : Nat
  errands : Multiset (Nat × Errand)
  history : List Happening
  -- What retries have named that no callback made, the latest first.
  asked : List Parcel
  bid : Option Bid

namespace Happening

def posted? : Happening → Option Nat
  | .posted n _ _ => some n
  | _ => none

structure Plain (x : Happening) : Prop where
  serial : x.serial? = none
  completed : x.completed? = none
  freed : x.freed? = none
  posted : x.posted? = none

end Happening

inductive Deal : Custody → Custody → Prop
  | remark {t : Custody} (x : Happening) (plain : x.Plain) (idle : t.bid = none) :
      Deal t { t with history := x :: t.history }
  -- Refused before a slot is taken.
  | refuse {t : Custody} (badge : Badge) (d : Dispatch Action) (failure : SendFailure) (payload : Payload)
      (alive : t.pool.isSome) (idle : t.bid = none) (early : failure ≠ .refused) :
      Deal t { t with
        serial := t.serial + 1
        history := .offered t.serial badge d (.rejected failure payload) :: t.history }
  | lend {t : Custody} (badge : Badge) (d : Dispatch Action) (woke : Bool) (p next : SlotPool Parcel) (k : Handle)
      (alive : t.pool = some p) (idle : t.bid = none)
      (allocated : p.allocate ⟨d.message badge woke, d.free, t.serial⟩ = some (k, next)) :
      Deal t { t with pool := some next, bid := some ⟨badge, d, k⟩ }
  | accept {t : Custody} (b : Bid) (alive : t.pool.isSome) (bids : t.bid = some b) :
      Deal t { t with
        serial := t.serial + 1
        history := .offered t.serial b.badge b.dispatch (.sent b.handle) :: t.history
        bid := none }
  | withdraw {t : Custody} (b : Bid) (payload : Payload) (alive : t.pool.isSome) (bids : t.bid = some b) :
      Deal t { t with
        pool := t.pool.map (·.reclaimed b.handle)
        serial := t.serial + 1
        history := .offered t.serial b.badge b.dispatch (.rejected .refused payload) :: t.history
        bid := none }
  | settle {t : Custody} (p : SlotPool Parcel) (parcel : Parcel) (k : Handle) (fate : Completion) (alive : t.pool = some p)
      (live : p.live? k = some parcel) (ended : ∀ i, fate ≠ .handed i) :
      Deal t { t with
        pool := some ((p.put k .retiring).reclaimed k)
        completions := t.completions + 1
        history := .completed parcel.serial fate :: t.history }
  | hand {t : Custody} (p : SlotPool Parcel) (parcel : Parcel) (k : Handle) (callback : FreeCallback Action) (i : Nat)
      (alive : t.pool = some p) (live : p.live? k = some parcel) (heard : parcel.callback = some callback) :
      Deal t { t with
        pool := some (p.put k .retiring)
        completions := t.completions + 1
        errands := (i, .handBack k parcel.serial callback parcel.message.payload) ::ₘ t.errands
        history := .completed parcel.serial (.handed i) :: t.history }
  | turnDown {t : Custody} (a : Arrival) (failure : RouteFailure) (alive : t.pool.isSome) (idle : t.bid = none)
      (early : failure ≠ .unavailable) :
      Deal t { t with
        serial := t.serial + 1
        history := .arrived t.serial a (.rejected failure) :: t.history }
  -- A slot was taken for a message that no loop takes after all.
  | bounce {t : Custody} (a : Arrival) (p next : SlotPool Parcel) (k : Handle) (alive : t.pool = some p) (idle : t.bid = none)
      (allocated : p.allocate ⟨a.message, none, t.serial⟩ = some (k, next)) :
      Deal t { t with
        pool := some (next.reclaimed k)
        serial := t.serial + 1
        history := .arrived t.serial a (.rejected .unavailable) :: t.history }
  | deliver {t : Custody} (a : Arrival) (p next : SlotPool Parcel) (k : Handle) (i : Nat) (badge : Badge)
      (alive : t.pool = some p) (idle : t.bid = none)
      (allocated : p.allocate ⟨a.message, none, t.serial⟩ = some (k, next)) :
      Deal t { t with
        pool := some next
        serial := t.serial + 1
        errands := (i, .event k t.serial (Parcel.event k badge.inst ⟨a.message, none, t.serial⟩)) ::ₘ t.errands
        history := .arrived t.serial a .delivered :: .posted t.serial i badge :: t.history }
  | putOff {t : Custody} (a : Arrival) (p next : SlotPool Parcel) (k : Handle) (alive : t.pool = some p)
      (idle : t.bid = none) (allocated : p.allocate ⟨a.message, none, t.serial⟩ = some (k, next)) :
      Deal t { t with
        pool := some next
        serial := t.serial + 1
        errands := (0, .retry k t.serial) ::ₘ t.errands
        history := .arrived t.serial a .deferred :: t.history }
  | ask {t : Custody} (p : SlotPool Parcel) (parcel : Parcel) (k : Handle) (alive : t.pool = some p) (idle : t.bid = none)
      (live : p.live? k = some parcel) :
      Deal t { t with
        errands := (0, .retry k parcel.serial) ::ₘ t.errands
        asked := parcel :: t.asked }
  | repost {t : Custody} (j n : Nat) (k : Handle) (es : Multiset (Nat × Errand)) (p : SlotPool Parcel) (parcel : Parcel)
      (i : Nat) (badge : Badge) (idle : t.bid = none) (work : t.errands = (j, .retry k n) ::ₘ es) (alive : t.pool = some p)
      (live : p.live? k = some parcel) :
      Deal t { t with
        errands := (i, .event k parcel.serial (parcel.event k badge.inst)) ::ₘ es
        history := .posted parcel.serial i badge :: t.history }
  | fizzle {t : Custody} (j n : Nat) (k : Handle) (es : Multiset (Nat × Errand)) (idle : t.bid = none)
      (work : t.errands = (j, .retry k n) ::ₘ es) (gone : ∀ p, t.pool = some p → p.live? k = none) :
      Deal t { t with errands := es }
  | free {t : Custody} (i n : Nat) (k : Handle) (callback : FreeCallback Action) (payload : Payload)
      (es : Multiset (Nat × Errand)) (idle : t.bid = none) (work : t.errands = (i, .handBack k n callback payload) ::ₘ es) :
      Deal t { t with
        errands := (i, .giveBack k) ::ₘ es
        history := .freed n callback payload :: t.history }
  | pass {t : Custody} (i n : Nat) (k : Handle) (e : Event) (es : Multiset (Nat × Errand)) (idle : t.bid = none)
      (work : t.errands = (i, .event k n e) ::ₘ es) : Deal t { t with errands := (i, .consume k n) ::ₘ es }
  | giveUp {t : Custody} (i : Nat) (x : Errand) (es : Multiset (Nat × Errand)) (idle : t.bid = none)
      (work : t.errands = (i, x) ::ₘ es) (unpledged : x.pledge? = none) :
      Deal t { t with pool := t.pool.map (·.reclaimed x.holding.1), errands := es }
  | bereave {t : Custody} (idle : t.bid = none) : Deal t { t with pool := none, serial := 0, completions := 0 }

abbrev Deals : Custody → Custody → Prop := Relation.ReflTransGen Deal

theorem deals_to {t t' t'' : Custody} (deals : Deals t t') (same : t'' = t') : Deals t t'' := by
  rw [same]
  exact deals

variable {hand : List (Nat × Epilogue)} {asked : List Parcel} {bid : Option Bid}

namespace Hub

def custody (hand : List (Nat × Epilogue)) (asked : List Parcel) (bid : Option Bid) (h : Hub) : Custody where
  pool := h.relay.map (·.pool)
  serial := (h.relay.map (·.serial)).getD 0
  completions := h.tally.completions
  errands := handErrands hand + gather RunLoop.errands h.loops
  history := h.history
  asked := asked
  bid := bid

@[simp] theorem custody_note (h : Hub) (n : Note) : (h.note n).custody hand asked bid = h.custody hand asked bid := rfl

@[simp] theorem custody_noteDropped (h : Hub) (callback : Option (FreeCallback Action)) :
    (h.noteDropped callback).custody hand asked bid = h.custody hand asked bid := by
  obtain ⟨journal, dropped⟩ := h.noteDropped_cases callback
  rw [dropped]
  rfl

theorem custody_record (h : Hub) (x : Happening) :
    (h.record x).custody hand asked bid =
      { h.custody hand asked bid with history := x :: (h.custody hand asked bid).history } := rfl

theorem custody_count (h : Hub) (f : RelayTally → RelayTally) (keeps : ∀ t, (f t).completions = t.completions) :
    (h.count f).custody hand asked bid = h.custody hand asked bid := by
  unfold count onRelay custody tally
  cases h.relay <;> simp [keeps]

theorem custody_reclaim (h : Hub) (k : Handle) :
    (h.reclaim k).custody hand asked bid =
      { h.custody hand asked bid with pool := (h.custody hand asked bid).pool.map (·.reclaimed k) } := by
  obtain ⟨journal, reclaimed⟩ := h.reclaim_cases k
  rw [reclaimed]
  unfold custody tally
  cases h.relay <;> rfl

theorem custody_passSerial (h : Hub) (alive : h.relay.isSome) :
    h.passSerial.custody hand asked bid =
      { h.custody hand asked bid with serial := (h.custody hand asked bid).serial + 1 } := by
  obtain ⟨r, relay⟩ := Option.isSome_iff_exists.mp alive
  simp only [passSerial, onRelay, custody, tally, relay]
  rfl

theorem custody_lent (h : Hub) (pool : SlotPool Parcel) (r : Relay) (relay : h.relay = some r) :
    (h.lent pool r).custody hand asked bid = { h.custody hand asked bid with pool := some pool } := by
  simp only [lent, custody, tally, relay]
  rfl

theorem custody_retired (h : Hub) (k : Handle) (r : Relay) (relay : h.relay = some r) :
    (h.retired k r).custody hand asked bid =
      { h.custody hand asked bid with
        pool := some (r.pool.put k .retiring)
        completions := (h.custody hand asked bid).completions + 1 } := by
  simp only [retired, custody, tally, relay]
  rfl

theorem custody_set (h : Hub) (i : Nat) (l next : RunLoop) (more : Multiset (Nat × Errand)) (place : h.loops[i]? = some l)
    (errands : next.errands i = more + l.errands i) :
    ({ h with loops := h.loops.set i next } : Hub).custody hand asked bid =
      { h.custody hand asked bid with errands := more + (h.custody hand asked bid).errands } := by
  simp only [custody, gather_set_more RunLoop.errands h.loops i l next more place errands, add_left_comm]
  rfl

theorem custody_modify (h : Hub) (i : Nat) (f : RunLoop → RunLoop) (errands : ∀ l : RunLoop, (f l).errands i = l.errands i) :
    (h.modifyLoop i f).custody hand asked bid = h.custody hand asked bid := by
  rcases modify_cases h i f with ⟨-, same⟩ | ⟨l, place, change⟩
  · rw [same]
  · rw [change, custody_set h i l (f l) 0 place (by rw [errands, zero_add]), zero_add]

theorem custody_enqueue (h next : Hub) (i : Nat) (t : Task) (queued : h.enqueue i t = .ok next) :
    next.custody hand asked bid =
      { h.custody hand asked bid with errands := t.errands i + (h.custody hand asked bid).errands } := by
  obtain ⟨l, after, place, taken, rfl⟩ := enqueue_cases h next i t queued
  have change := RunLoop.enqueue_cases t l after taken
  exact custody_set h i l after _ place (RunLoop.errands_push i t l after (by rw [change]))

theorem custody_hand (h : Hub) (i : Nat) (rest : Epilogue) :
    h.custody ((i, rest) :: hand) asked bid =
      { h.custody hand asked bid with errands := rest.errands i + (h.custody hand asked bid).errands } := by
  simp only [custody, hand_errands_cons, add_assoc]

theorem custody_hand_idle (h : Hub) (i : Nat) (rest : Epilogue) (idle : rest.errand? = none) :
    h.custody ((i, rest) :: hand) asked bid = h.custody hand asked bid := by
  rw [custody_hand, Epilogue.errands, idle]
  simp

theorem custody_pool (h : Hub) (r : Relay) (relay : h.relay = some r) :
    (h.custody hand asked bid).pool = some r.pool ∧ (h.custody hand asked bid).serial = r.serial := by
  simp only [custody, relay, Option.map_some, Option.getD_some, and_self]

theorem lent_deal (badge : Badge) (d : Dispatch Action) (woke : Bool) (k : Handle) (pool : SlotPool Parcel) (r : Relay) (h : Hub)
    (relay : h.relay = some r) (allocated : r.pool.allocate ⟨d.message badge woke, d.free, r.serial⟩ = some (k, pool)) :
    Deal (h.custody hand asked none) ((h.lent pool r).custody hand asked (some ⟨badge, d, k⟩)) := by
  obtain ⟨alive, serial⟩ := @custody_pool hand asked none h r relay
  rw [← serial] at allocated
  rw [custody_lent h pool r relay]
  exact .lend badge d woke r.pool pool k alive rfl allocated

theorem complete_deals (k : Handle) (h : Hub) : Deals (h.custody hand asked bid) ((h.complete k).custody hand asked bid) := by
  cases relay : h.relay with
  | none => rw [complete, relay]
  | some r =>
      obtain ⟨alive, -⟩ := @custody_pool hand asked bid h r relay
      cases live : r.pool.live? k with
      | none =>
          rw [complete, relay]
          simp only [SlotPool.retire_stale k r.pool live]
          exact deals_to .refl (custody_count h RelayTally.countDuplicate fun _ => rfl)
      | some parcel =>
          rw [complete_live h k r parcel relay live]
          cases heard : parcel.callback with
          | none =>
              simp only [custody_record, custody_reclaim, custody_retired h k r relay]
              exact .single (.settle r.pool parcel k .released alive live (by simp))
          | some callback =>
              simp only
              split
              · next next queued =>
                  rw [custody_record, custody_enqueue _ next _ _ queued, custody_retired h k r relay,
                    Task.errands_cons _ _ _ _ rfl]
                  exact .single (.hand r.pool parcel k callback _ alive live heard)
              · simp only [custody_record, custody_reclaim, custody_count _ RelayTally.countAbandoned fun _ => rfl,
                  custody_note, custody_retired h k r relay]
                exact .single (.settle r.pool parcel k (.abandoned (h.home parcel.message.app)) alive live (by simp))

theorem relay_complete (k : Handle) (h : Hub) : (h.complete k).relay.map (·.serial) = h.relay.map (·.serial) := by
  cases relay : h.relay with
  | none => rw [complete, relay, relay]
  | some r =>
      cases live : r.pool.live? k with
      | none =>
          rw [complete, relay]
          simp only [SlotPool.retire_stale k r.pool live, count, onRelay, relay, Option.map_some]
      | some parcel =>
          have reclaimed : ∀ g : Hub, (g.reclaim k).relay.map (·.serial) = g.relay.map (·.serial) := by
            intro g
            obtain ⟨journal, same⟩ := g.reclaim_cases k
            rw [same, Option.map_map]
            rfl
          rw [complete_live h k r parcel relay live]
          split
          · exact reclaimed (h.retired k r)
          · split
            · next next queued =>
                have kept := alive_enqueue _ next _ _ queued
                exact congrArg (Option.map (·.serial)) kept
            · exact reclaimed _

end Hub

end HubRelay
