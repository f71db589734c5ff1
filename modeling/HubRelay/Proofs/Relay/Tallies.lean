import HubRelay.Proofs.Relay.Conveyance
import HubRelay.Proofs.Relay.WakeCycles
import Mathlib.Algebra.BigOperators.Intervals

/-! What the relay counts of the calls to it, and what its nanoapps answer for, beside the passages on the link. -/

set_option autoImplicit false

namespace HubRelay

namespace Ledger

def sent (l : Ledger) : Nat := ∑ entry ∈ Finset.range l.opened, (l.usage entry).sent

theorem usage_update (entry e : Nat) (f : Usage → Usage) (l : Ledger) :
    (l.update entry f).usage e = if e = entry then f (l.usage e) else l.usage e :=
  lookup_update entry e f l.rows

theorem sent_countSent (entry : Nat) (l : Ledger) (opened : entry < l.opened) :
    (l.update entry Usage.countSent).sent = l.sent + 1 := by
  have each : ∀ e, ((l.update entry Usage.countSent).usage e).sent = (l.usage e).sent + if e = entry then 1 else 0 := by
    intro e
    rw [usage_update]
    split <;> rfl
  have same : (l.update entry Usage.countSent).opened = l.opened := rfl
  rw [sent, same, Finset.sum_congr rfl fun e _ => each e, Finset.sum_add_distrib, Finset.sum_ite_eq',
    if_pos (Finset.mem_range.mpr opened)]
  rfl

theorem usage_wakeup (entry e : Nat) (l : Ledger) : ((l.update entry Usage.countWakeup).usage e).sent = (l.usage e).sent := by
  rw [usage_update]
  split <;> rfl

end Ledger

def Passage.Quiet : Passage → Prop
  | .accepted _ | .refused => False
  | _ => True

theorem Manifest.addAll_quiet (passages : List Passage) (b : Manifest) (quiet : ∀ p ∈ passages, p.Quiet) :
    (b.addAll passages).accepted = b.accepted ∧ (b.addAll passages).refused = b.refused := by
  induction passages generalizing b with
  | nil => exact ⟨rfl, rfl⟩
  | cons p rest ih =>
      obtain ⟨accepted, refused⟩ := ih (b.add p) fun other member => quiet other (List.mem_cons_of_mem p member)
      have own := quiet p List.mem_cons_self
      cases p with
      | accepted | refused => exact own.elim
      | granted | taken | closed | drained | collected => exact ⟨accepted, refused⟩

namespace Uplink

theorem takes_quiet (limit : Nat) (u : Uplink) : ∀ p ∈ u.takes limit, p.Quiet := by
  intro p member
  unfold takes at member
  split at member
  · cases member
  · obtain ⟨m, -, rfl⟩ := List.mem_map.mp member
    trivial

theorem hauls_quiet (u : Uplink) : ∀ p ∈ u.hauls, p.Quiet := by
  intro p member
  unfold hauls at member
  split at member
  · exact u.takes_quiet _ p member
  · cases member

theorem shuts_quiet (u : Uplink) : ∀ p ∈ u.shuts, p.Quiet := by
  intro p member
  unfold shuts at member
  split at member
  · cases member
  · rcases List.mem_append.mp member with hauled | closed
    · exact u.hauls_quiet p hauled
    · rcases List.mem_cons.mp closed with rfl | drained
      · trivial
      · obtain ⟨m, -, rfl⟩ := List.mem_map.mp drained
        trivial

end Uplink

namespace Register

structure Tallies (calls : Nat) (b : Manifest) (a : Account) (g : Register) : Prop where
  known : g.account = some a
  calls : calls = a.accepted + a.rejected
  accepted : a.accepted = b.accepted.length
  refused : a.rejectedByLink = b.refused
  sent : g.ledger.sent = a.accepted
  -- What a nanoapp sends stands under its own entry.
  unopened : ∀ entry, g.ledger.opened ≤ entry → (g.ledger.usage entry).sent = 0
  entered : ∀ i, ∀ badge ∈ g.requested i, badge.entry < g.ledger.opened

variable {calls : Nat} {b : Manifest} {a : Account} {g : Register}

theorem tallies_open (g' : Register) (tallies : g.Tallies calls b a) (account : g'.account = g.account)
    (ledger : g'.ledger = g.ledger.openRow.2)
    (entered : ∀ i, ∀ badge ∈ g'.requested i, badge ∈ g.requested i ∨ badge.entry = g.ledger.opened) :
    g'.Tallies calls b a := by
  obtain ⟨known, counted, accepted, refused, sent, unopened, before⟩ := tallies
  refine ⟨account.trans known, counted, accepted, refused, ?_, ?_, ?_⟩
  · rw [← sent, ledger, Ledger.sent, Ledger.openRow]
    change ∑ entry ∈ Finset.range (g.ledger.opened + 1), (g.ledger.usage entry).sent = _
    rw [Finset.sum_range_succ, unopened _ (Nat.le_refl _)]
    rfl
  · intro entry later
    rw [ledger] at later ⊢
    exact unopened entry (Nat.le_of_succ_le later)
  · intro i badge member
    rw [ledger]
    rcases entered i badge member with earlier | fresh
    · exact Nat.lt_succ_of_lt (before i badge earlier)
    · exact Nat.lt_succ_of_le (Nat.le_of_eq fresh)

end Register

theorem RelayTally.countRejection_account (failure : SendFailure) (t : RelayTally) :
    (t.countRejection failure).accepted = t.accepted ∧ (t.countRejection failure).rejected = t.rejected + 1 ∧
      (t.countRejection failure).rejectedByLink = t.rejectedByLink + if failure = .refused then 1 else 0 := by
  cases failure <;> simp [RelayTally.countRejection, RelayTally.rejected] <;> omega

namespace Stack

variable {n : Nat} {b : Manifest} {a : Account} {s : Stack}

theorem reject_tallies (failure : SendFailure) (payload : Payload) (b' : Manifest) (tallies : s.hub.register.Tallies n b a)
    (accepted : b'.accepted = b.accepted) (refused : b'.refused = b.refused + if failure = .refused then 1 else 0) :
    ∃ a', (s.reject failure payload).2.hub.register.Tallies (n + 1) b' a' := by
  obtain ⟨known, counted, accepted', refused', sent, unopened, entered⟩ := tallies
  obtain ⟨r, relay, rfl⟩ := Option.map_eq_some_iff.mp known
  obtain ⟨same, more, byLink⟩ := RelayTally.countRejection_account failure r.tally
  refine ⟨Relay.account { r with tally := r.tally.countRejection failure }, ?_, ?_, ?_, ?_, ?_, unopened, entered⟩
  · simp only [reject, onHub, Hub.register, Hub.count, Hub.onRelay, relay, Option.map_some]
  · change n + 1 = (r.tally.countRejection failure).accepted + (r.tally.countRejection failure).rejected
    rw [same, more, counted]
    rfl
  · rw [accepted]
    exact same.trans accepted'
  · rw [refused, ← refused']
    exact byLink
  · exact sent.trans same.symm

theorem credit_tallies (badge : Badge) (woke : Bool) (m : Outgoing) (tallies : s.hub.register.Tallies n b a)
    (opened : badge.entry < s.hub.ledger.opened) :
    ∃ a', (s.credit badge woke).hub.register.Tallies (n + 1) (b.add (.accepted m)) a' := by
  obtain ⟨known, counted, accepted, refused, sent, unopened, entered⟩ := tallies
  obtain ⟨r, relay, rfl⟩ := Option.map_eq_some_iff.mp known
  -- Whether the sender answers for the wake cycle too does not matter here.
  obtain ⟨claim, ledger, credited, opened', usage⟩ : ∃ claim ledger,
      (s.credit badge woke).hub = { s.hub with
        relay := some { r with wakeClaim := claim, tally := r.tally.countAccepted }, ledger := ledger } ∧
      ledger.opened = s.hub.ledger.opened ∧
      ∀ e, (ledger.usage e).sent = ((s.hub.ledger.update badge.entry Usage.countSent).usage e).sent := by
    rw [credit, relay]
    refine ⟨_, _, rfl, ?_, ?_⟩
    · split <;> rfl
    · intro e
      split
      · exact Ledger.usage_wakeup _ e _
      · rfl
  have summed : ledger.sent = s.hub.ledger.sent + 1 := by
    rw [← Ledger.sent_countSent badge.entry s.hub.ledger opened, Ledger.sent, Ledger.sent, opened']
    exact Finset.sum_congr rfl fun e _ => usage e
  refine ⟨Relay.account { r with wakeClaim := claim, tally := r.tally.countAccepted }, ?_, ?_, ?_, refused, ?_, ?_, ?_⟩
  · rw [credited]
    rfl
  · rw [counted]
    simp only [Relay.account, RelayTally.countAccepted, RelayTally.rejected]
    omega
  · simp only [Manifest.add, List.length_append, List.length_singleton, ← accepted]
    rfl
  · rw [credited]
    exact summed.trans (congrArg (· + 1) sent)
  · intro entry later
    rw [credited] at later ⊢
    have later' : s.hub.ledger.opened ≤ entry := opened' ▸ later
    change (ledger.usage entry).sent = 0
    rw [usage, Ledger.usage_update, if_neg (by omega)]
    exact unopened entry later'
  · intro i other member
    rw [credited] at member ⊢
    change other.entry < ledger.opened
    rw [opened']
    exact entered i other member

structure Tallied (n : Nat) (b : Manifest) (s : Stack) : Prop where
  register : ∃ a, s.hub.register.Tallies n b a
  named : ∀ name badge, (name, badge) ∈ s.names → badge.entry < s.hub.ledger.opened

theorem tallied_books (s' : Stack) (tallied : s.Tallied n b) (same : s'.books = s.books) : s'.Tallied n b := by
  have register : s'.hub.register = s.hub.register := congrArg Books.register same
  have names : s'.names = s.names := congrArg Books.names same
  have ledger : s'.hub.ledger = s.hub.ledger := congrArg Register.ledger register
  refine ⟨?_, ?_⟩
  · rw [register]
    exact tallied.register
  · rw [names, ledger]
    exact tallied.named

theorem tallied_passages (b' : Manifest) (tallied : s.Tallied n b) (accepted : b'.accepted = b.accepted)
    (refused : b'.refused = b.refused) : s.Tallied n b' := by
  obtain ⟨⟨a, known, counted, accepted', refused', sent, unopened, entered⟩, named⟩ := tallied
  exact ⟨⟨a, known, counted, accepted'.trans (congrArg _ accepted.symm), refused'.trans refused.symm, sent, unopened,
    entered⟩, named⟩

theorem sendAs_written (badge : Badge) (d : Dispatch Action) (r : Relay) (s : Stack) (linked : s.Linked)
    (relay : s.hub.relay = some r) :
    ∃ past : Stack, past.books = s.books ∧
      ((∃ failure payload, s.sendAs badge d r = past.reject failure payload) ∨
        ∃ k, s.sendAs badge d r = (.sent k, past.credit badge (!s.power.awake))) := by
  obtain ⟨u, link⟩ := linked
  rcases sendAs_early badge d s r with ⟨failure, -, refused⟩ | ⟨k, pool, -, answered⟩
  · have dropped := books_hub s (s.onHub (·.noteDropped d.free)) (Hub.register_noteDropped s.hub d.free) rfl rfl
    exact ⟨_, dropped, .inl ⟨failure, d.payload, refused⟩⟩
  · have lent : (s.onHub (·.lent pool r)).books = s.books := books_hub s _ (Hub.register_lent s.hub pool r relay) rfl rfl
    obtain ⟨taken, after, offered, same⟩ : ∃ taken after,
        (s.onHub (·.lent pool r)).offer ⟨k, d.message badge (!s.power.awake)⟩ = (taken, after) ∧ after.books = s.books := by
      have link' : (s.onHub (·.lent pool r)).link = .uplink u := link
      refine ⟨_, _, rfl, ?_⟩
      simp only [link']
      exact lent
    rw [answered, offered]
    cases taken with
    | true => exact ⟨after, same, .inr ⟨k, rfl⟩⟩
    | false =>
        refine ⟨(after.withdraw k).2, ?_, .inl ⟨.refused, _, rfl⟩⟩
        rw [withdraw_cases]
        exact (books_hub after (after.onHub (·.reclaim k)) (Hub.register_reclaim after.hub k) rfl rfl).trans same

theorem credit_names (badge : Badge) (woke : Bool) (s : Stack) :
    (s.credit badge woke).names = s.names ∧ (s.credit badge woke).hub.ledger.opened = s.hub.ledger.opened := by
  unfold credit
  split
  · exact ⟨rfl, rfl⟩
  · next r _ =>
      refine ⟨rfl, ?_⟩
      cases woke with
      | false => rfl
      | true =>
          change (if r.wakeClaim.claim.1 = true then _ else _ : Ledger).opened = _
          split <;> rfl

theorem sendAs_tallied (badge : Badge) (d : Dispatch Action) (r : Relay) (linked : s.Linked) (relay : s.hub.relay = some r)
    (named : s.names.lookup d.sender = some badge) (tallied : s.Tallied n b) :
    (s.sendAs badge d r).2.Tallied (n + 1) (b.addAll (s.sends d)) := by
  obtain ⟨past, same, outcome⟩ := sendAs_written badge d r s linked relay
  obtain ⟨⟨a, tallies⟩, known⟩ := tallied_books past tallied same
  have tried : s.tries d = some (badge, (s.sendAs badge d r).1) := by simp [tries, relay, named]
  rcases outcome with ⟨failure, payload, refused⟩ | ⟨k, sent⟩
  · rw [refused] at tried ⊢
    refine ⟨reject_tallies failure payload _ tallies ?_ ?_, known⟩
    · cases failure <;> simp [sends, tried, reject, Manifest.addAll, Manifest.add]
    · cases failure <;> simp [sends, tried, reject, Manifest.addAll, Manifest.add]
  · rw [sent] at tried ⊢
    obtain ⟨earlier, later, split, -⟩ := List.lookup_eq_some_iff.mp named
    have member : (d.sender, badge) ∈ s.names := by simp [split]
    have names : past.names = s.names := congrArg Books.names same
    rw [← names] at member
    obtain ⟨a', credited⟩ := credit_tallies badge (!s.power.awake) ⟨k, d.message badge (!s.power.awake)⟩ tallies
      (known _ badge member)
    obtain ⟨names', opened⟩ := credit_names badge (!s.power.awake) past
    refine ⟨⟨a', ?_⟩, ?_⟩
    · simp only [sends, tried]
      exact credited
    · rw [names', opened]
      exact known

theorem send_books (badge : Badge) (d : Dispatch Action) (r : Relay) (s : Stack) (relay : s.hub.relay = some r)
    (named : s.names.lookup d.sender = some badge) : (s.send d).2.books = (s.sendAs badge d r).2.books := by
  have passed : ∀ answer (t : Stack), (t.onHub fun h => (h.record (.offered r.serial badge d answer)).passSerial).books =
      t.books := by
    intro answer t
    have recorded := Hub.register_record t.hub (.offered r.serial badge d answer) (by nofun)
    exact books_hub t _ ((Hub.register_passSerial _).trans recorded) rfl rfl
  unfold send
  simp only [relay, named]
  rcases sendAs_answer badge d r s with ⟨k, sent⟩ | ⟨failure, payload, rejected⟩
  · simp only [sent]
    cases d.brief with
    | true => exact passed _ _
    | false => cases d.label <;> exact passed _ _
  · simp only [rejected]
    cases d.brief <;> exact passed _ _

def calls (a : Action) (s : Stack) : Nat :=
  match a with
  | .send d => (s.tries d).toList.length
  | _ => 0

theorem send_tallied (d : Dispatch Action) (linked : s.Linked) (tallied : s.Tallied n b) :
    (s.send d).2.Tallied (n + s.calls (.send d)) (b.addAll (s.sends d)) := by
  have idle : s.tries d = none → (s.send d).2 = s → (s.send d).2.Tallied (n + s.calls (.send d)) (b.addAll (s.sends d)) := by
    intro none same
    simp only [same, calls, sends, none]
    exact tallied
  cases relay : s.hub.relay with
  | none => exact idle (by simp [tries, relay]) (by simp [send, relay])
  | some r =>
      cases named : s.names.lookup d.sender with
      | none => exact idle (by simp [tries, relay, named]) (by simp [send, relay, named])
      | some badge =>
          have called : s.calls (.send d) = 1 := by simp [calls, tries, relay, named]
          rw [called]
          exact tallied_books _ (sendAs_tallied badge d r linked relay named tallied) (send_books badge d r s relay named)

theorem requestLoad_tallies (i : Nat) (app : AppId) (permissions : Permissions) (program : Program Action) (h : Hub)
    (tallies : h.register.Tallies n b a) :
    (h.requestLoad i app permissions program).2.register.Tallies n b a ∧
      h.ledger.opened ≤ (h.requestLoad i app permissions program).2.ledger.opened := by
  cases place : h.loops[i]? with
  | none =>
      simp only [Hub.requestLoad, place]
      exact ⟨tallies, Nat.le_refl _⟩
  | some l =>
      obtain ⟨next, -, -, -, requested⟩ := Hub.requestLoad_cases h i app permissions program l place
      rw [requested]
      refine ⟨Register.tallies_open _ tallies rfl rfl fun j badge member => ?_, Nat.le_succ _⟩
      have listed := (mem_requests j badge _).mp member
      rcases List.mem_cons.mp listed with fresh | earlier
      · cases fresh
        exact .inr rfl
      · exact .inl ((mem_requests j badge _).mpr earlier)

theorem requestLoads_tallies (i count : Nat) (app : AppId) (last : Reply) (h : Hub) (tallies : h.register.Tallies n b a) :
    (h.requestLoads i count app last).2.register.Tallies n b a ∧
      h.ledger.opened ≤ (h.requestLoads i count app last).2.ledger.opened := by
  induction count generalizing h app last with
  | zero => exact ⟨tallies, Nat.le_refl _⟩
  | succ count ih =>
      obtain ⟨once, opened⟩ := requestLoad_tallies i app Permissions.none .inert h tallies
      obtain ⟨later, more⟩ := ih (app + 1) _ _ once
      exact ⟨later, opened.trans more⟩

theorem mem_assign {α : Type} (key : String) (value : α) (l : List (String × α)) (x : String × α)
    (member : x ∈ assign key value l) : x = (key, value) ∨ x ∈ l := by
  induction l with
  | nil => exact .inl (List.mem_singleton.mp member)
  | cons y rest ih =>
      unfold assign at member
      split at member
      · rcases List.mem_cons.mp member with here | later
        · exact .inl here
        · exact .inr (List.mem_cons_of_mem y later)
      · rcases List.mem_cons.mp member with here | later
        · exact .inr (here ▸ List.mem_cons_self)
        · rcases ih later with here | there
          · exact .inl here
          · exact .inr (List.mem_cons_of_mem y there)

theorem endCycle_tallied (tallied : s.Tallied n b) : s.endCycle.Tallied n b := by
  obtain ⟨⟨a, known, counted, accepted, refused, sent, unopened, entered⟩, named⟩ := tallied
  obtain ⟨r, relay, rfl⟩ := Option.map_eq_some_iff.mp known
  refine ⟨⟨Relay.account { r with wakeClaim := r.wakeClaim.reset }, ?_, counted, accepted, refused, sent, unopened, entered⟩,
    named⟩
  simp only [endCycle, onHub, Hub.register, Hub.onRelay, relay, Option.map_some]

theorem ifLoop_tallied (i : Nat) (f : RunLoop → Reply × Stack) (tallied : s.Tallied n b)
    (each : ∀ l, s.loop? i = some l → (f l).2.Tallied n b) : (s.ifLoop i f).2.Tallied n b :=
  s.ifLoop_keeps (·.Tallied n b) i f tallied each

theorem act_tallied (x : Action) (s : Stack) (u : Uplink) (link : s.link = .uplink u)
    (known : ∀ i badge, s.hub.Knows i badge → badge.entry < s.hub.ledger.opened) (tallied : s.Tallied n b) :
    (s.act x).2.Tallied (n + s.calls x) (b.addAll (s.passes x u)) := by
  have aside : x.IsAsideRegister → s.calls x = 0 → (∀ p ∈ s.passes x u, p.Quiet) →
      (s.act x).2.Tallied (n + s.calls x) (b.addAll (s.passes x u)) := by
    intro apart idle quiet
    obtain ⟨accepted, refused⟩ := Manifest.addAll_quiet _ b quiet
    rw [idle]
    exact tallied_passages _ (tallied_books _ tallied (books_act x s apart)) accepted refused
  have ⟨⟨a, tallies⟩, named⟩ := tallied
  cases x with
  | send d => exact send_tallied d ⟨u, link⟩ tallied
  | load i app permissions program =>
      refine ifLoop_tallied i _ tallied fun l _ => ?_
      obtain ⟨loaded, opened⟩ := requestLoad_tallies i app permissions program s.hub tallies
      exact ⟨⟨a, loaded⟩, fun name badge member => (named name badge member).trans_le opened⟩
  | loadMany i app count =>
      refine ifLoop_tallied i _ tallied fun l _ => ?_
      obtain ⟨loaded, opened⟩ := requestLoads_tallies i count app .done s.hub tallies
      exact ⟨⟨a, loaded⟩, fun name badge member => (named name badge member).trans_le opened⟩
  | grab i app name =>
      refine ifLoop_tallied i _ tallied fun l place => ?_
      split
      · exact tallied
      · exact tallied
      · next badge name' found =>
          refine ⟨⟨a, tallies⟩, fun name'' badge' member => ?_⟩
          rcases mem_assign _ _ _ _ member with here | there
          · cases here
            exact known i badge ⟨l, place, .inl (List.mem_of_find?_eq_some found)⟩
          · exact named _ badge' there
  | enrol name app inst permissions =>
      refine ⟨⟨a, Register.tallies_open _ tallies rfl rfl fun i badge member => .inl member⟩, fun name' badge member => ?_⟩
      rcases mem_assign _ _ _ _ member with here | there
      · cases here
        exact Nat.lt_succ_self _
      · exact Nat.lt_succ_of_lt (named _ badge there)
  | resetClaim =>
      simp only [act, ifRelay]
      split
      · exact tallied
      · exact endCycle_tallied tallied
  | suspend =>
      have asleep : ∀ power, ({ s with power := power } : Stack).Tallied n b :=
        fun _ => ⟨⟨a, tallies⟩, named⟩
      simp only [act]
      split
      · exact endCycle_tallied (asleep _)
      · exact asleep _
  | wake => exact ⟨⟨a, tallies⟩, named⟩
  | unload | find | post | defer | stop | complete | retry | deliver | puppet | malformed =>
      exact aside trivial rfl fun p member => absurd member List.not_mem_nil
  | flush =>
      refine aside trivial rfl fun p member => ?_
      simp only [passes] at member
      split at member
      · exact u.hauls_quiet p member
      · cases member
  | shutdown =>
      refine aside trivial rfl fun p member => ?_
      simp only [passes] at member
      split at member
      · exact u.shuts_quiet p member
      · cases member
  | uplink call =>
      refine aside trivial rfl fun p member => ?_
      cases call with
      | pump limit => exact u.takes_quiet limit p member
      | spoil | takeReceived =>
          cases List.mem_singleton.mp member
          trivial
      | start | pause | resume => cases member

end Stack

end HubRelay
