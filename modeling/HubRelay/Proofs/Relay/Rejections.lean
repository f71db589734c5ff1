import HubRelay.Proofs.Relay.Sends

/-! Messages that are turned down. They leave the relay as it was, but for a count, and their callbacks are never called. -/

set_option autoImplicit false

namespace HubRelay

namespace Custody

variable {t t' : Custody} {size : Nat}

structure Spent (n : Nat) (t : Custody) : Prop where
  numbered : n ∈ t.numbers
  gone : ∀ k parcel, t.live? k = some parcel → parcel.serial ≠ n
  unreported : n ∉ t.completed

theorem deal_spent (deal : Deal t t') (n : Nat) (sound : t.Sound size) (spent : t.Spent n) : t'.Spent n := by
  obtain ⟨numbered, gone, unreported⟩ := spent
  constructor
  · rcases deal_numbers deal with ⟨same, -⟩ | ⟨-, -, more, -⟩
    · rw [same]
      exact numbered
    · rw [more]
      exact List.mem_cons_of_mem _ numbered
  · intro k parcel live
    rcases deal_resident deal sound.housed k parcel live with old | granted
    · exact gone k parcel old
    · -- A message that gets a slot now has a number that was not in use.
      obtain ⟨p, next, alive, -⟩ := granted.taken
      have below := numbered_fresh sound.numbered (by rw [alive]; rfl) granted.idle n numbered
      exact fun same => Nat.ne_of_lt below (same.symm.trans granted.serial)
  · rcases deal_completed deal with ⟨same, -⟩ | ⟨k, parcel, live, -, more, -⟩
    · rw [same]
      exact unreported
    · rw [more]
      exact List.not_mem_cons_of_ne_of_not_mem (Ne.symm (gone k parcel live)) unreported

theorem deals_spent (deals : Deals t t') (n : Nat) (sound : t.Sound size) (spent : t.Spent n) : t'.Spent n := by
  induction deals with
  | refl => exact spent
  | tail before deal held => exact deal_spent deal n (deals_sound before sound) held

theorem spent_unfreed (n : Nat) (sound : t.Sound size) (spent : t.Spent n) (callback : FreeCallback Action) (payload : Payload) :
    .freed n callback payload ∉ t.history := by
  intro freed
  have called : n ∈ t.handed := by
    rw [← Multiset.mem_coe, sound.answered.balance, Multiset.mem_add]
    exact .inr (List.mem_map.mpr ⟨(n, callback, payload), List.mem_filterMap.mpr ⟨_, freed, rfl⟩, rfl⟩)
  obtain ⟨x, member, handed⟩ := List.mem_filterMap.mp called
  refine spent.unreported (List.mem_filterMap.mpr ⟨x, member, ?_⟩)
  unfold Happening.handed? at handed
  split at handed
  · exact handed
  · cases handed

end Custody

namespace Stack

def told (n : Nat) (badge : Badge) (d : Dispatch Action) (answer : Reply) (next : Stack) : Stack :=
  next.onHub fun h => (h.record (.offered n badge d answer)).passSerial

variable (badge : Badge) (d : Dispatch Action) (r : Relay) (u : Uplink)

theorem send_rejected (s next : Stack) (failure : SendFailure) (payload : Payload) (relay : s.hub.relay = some r)
    (named : s.names.lookup d.sender = some badge) (answer : s.sendAs badge d r = (.rejected failure payload, next)) :
    (s.send d).2 = next.told r.serial badge d (.rejected failure payload) := by
  simp only [send, relay, named, answer]
  rfl

theorem history_turnedDown (s : Stack) (failure : SendFailure) (pool : SlotPool Parcel) (tally : RelayTally) :
    (s.turnedDown d r u failure pool tally).hub.history = s.hub.history := by
  obtain ⟨journal, noted⟩ := s.hub.noteDropped_cases d.free
  simp only [turnedDown, noted]

theorem rejected_spent (size : Nat) (s : Stack) (hand : List (Nat × Epilogue)) (asked : List Parcel)
    (lost : Multiset (Nat × Errand)) (failure : SendFailure) (pool : SlotPool Parcel) (tally : RelayTally)
    (relay : s.hub.relay = some r) (sound : ((s.hub.custody hand asked none).beside lost).Sound size)
    (occupied : pool.occupied = r.pool.occupied) :
    ((((s.turnedDown d r u failure pool tally).told r.serial badge d (.rejected failure d.payload)).hub.custody hand asked none).beside
      lost).Spent r.serial := by
  obtain ⟨alive, serial⟩ := @Hub.custody_pool hand asked none s.hub r relay
  have unused : ∀ n ∈ (s.hub.custody hand asked none).taken, n < r.serial := by
    intro n member
    have below := Custody.numbered_fresh sound.numbered (t := (s.hub.custody hand asked none).beside lost)
      (show (s.hub.custody hand asked none).pool.isSome by rw [alive]; rfl) rfl n (Custody.taken_numbers n member)
    rw [← serial]
    exact below
  have told : ((s.turnedDown d r u failure pool tally).told r.serial badge d (.rejected failure d.payload)).hub.history =
      .offered r.serial badge d (.rejected failure d.payload) :: s.hub.history := by
    rw [← history_turnedDown d r u s failure pool tally]
    rfl
  constructor
  · refine List.mem_append_right _ (List.mem_filterMap.mpr ⟨.offered r.serial badge d (.rejected failure d.payload), ?_, rfl⟩)
    rw [Custody.beside, Hub.custody, told]
    exact List.mem_cons_self
  · intro k parcel live
    have before : (k, some parcel) ∈ r.pool.occupied := occupied ▸ (SlotPool.mem_occupied_live? k parcel pool).mpr live
    have lives : ((s.hub.custody hand asked none).beside lost).live? k = some parcel := by
      simp only [Custody.live?, Custody.beside, alive, Option.bind_some]
      exact (SlotPool.mem_occupied_live? k parcel r.pool).mp before
    exact Nat.ne_of_lt (unused _ (Custody.lodged_taken sound.lodged k parcel lives))
  · intro done
    rw [Custody.completed, Custody.beside, Hub.custody, told, List.filterMap_cons_none rfl] at done
    exact absurd (unused _ (sound.lodged.began _ done)) (Nat.lt_irrefl _)

end Stack

namespace Scene

/-- A message that is turned down leaves no mark but the count of the failure, whatever stood in its way. Its sender gets the
payload back as it was, and its callback is never called. -/
theorem rejected_send_undone (size : Nat) (c : Scene) (incidents : List Incident) (s next : Stack) (u : Uplink) (r : Relay)
    (badge : Badge) (d : Dispatch Action) (failure : SendFailure) (payload : Payload) (opening : c.Opening size)
    (honest : ∀ x ∈ incidents, x.Honest) (same : s.hub = (c.undergo incidents).stack.hub) (link : s.link = .uplink u)
    (relay : s.hub.relay = some r) (named : s.names.lookup d.sender = some badge)
    (answer : s.sendAs badge d r = (.rejected failure payload, next)) :
    payload = d.payload ∧
      (∃ pool tally, next = s.turnedDown d r u failure pool tally ∧ r.tally.Turns failure tally ∧ pool.free = r.pool.free ∧ pool.occupied = r.pool.occupied ∧
        if failure = .refused then r.pool.Renewed pool else pool = r.pool) ∧
      (s.send d).2 = next.told r.serial badge d (.rejected failure payload) ∧
      ∀ later, (∀ x ∈ later, x.Honest) → ∀ callback returned, .freed r.serial callback returned ∉
        ((Scene.mk (s.send d).2 (c.undergo incidents).hand).undergo later).stack.hub.history := by
  obtain ⟨asked, lost, sound⟩ := undergo_sound size incidents c opening honest
  have pooled := undergo_pool size incidents c opening honest r (same ▸ relay)
  have started : ((s.hub.custody (c.undergo incidents).hand asked none).beside lost).Sound size := by
    rw [same]
    exact sound
  rcases Stack.sendAs_ruled s relay link pooled with ⟨-, k, pool, -, sent⟩ | ⟨first, pool, -, rejected, kept⟩
  · cases answer.symm.trans sent
  · cases answer.symm.trans rejected
    have lists : pool.free = r.pool.free ∧ pool.occupied = r.pool.occupied := by
      split at kept
      · exact ⟨kept.free, kept.occupied⟩
      · rw [kept]
        exact ⟨rfl, rfl⟩
    have told := Stack.send_rejected badge d r s _ failure d.payload relay named answer
    refine ⟨rfl, ⟨pool, _, rfl, r.tally.countRejection_turns failure, lists.1, lists.2, kept⟩, told, fun later honest' callback returned => ?_⟩
    have spent := Stack.rejected_spent badge d r u size s (c.undergo incidents).hand asked lost failure pool
      (r.tally.countRejection failure) relay started lists.2
    have sent := Custody.deals_sound (Custody.deals_beside lost (Stack.send_deals d s)) started
    rw [← told] at spent
    obtain ⟨asked', more, deals⟩ := undergo_deals later ⟨(s.send d).2, (c.undergo incidents).hand⟩ asked lost honest'
    exact Custody.spent_unfreed r.serial (Custody.deals_sound deals sent) (Custody.deals_spent deals r.serial sent spent) callback returned

def crowded : List Incident :=
  [.act (.enrol "a" 1 1 .audio), .act (.send (murmur .audio)), .act (.send (murmur .audio)),
    .act (.send (murmur .audio))].map .move

theorem crowded_undone :
    dozing.Opening 8 ∧ (∀ x ∈ crowded, x.Honest) ∧
      ∃ r u next, (dozing.undergo crowded).stack.hub.relay = some r ∧ (dozing.undergo crowded).stack.link = .uplink u ∧
        (dozing.undergo crowded).stack.sendAs ⟨1, 1, .audio, 0⟩ (murmur .audio) r = (.rejected .refused [7], next) ∧
        (∃ pool, next = (dozing.undergo crowded).stack.turnedDown (murmur .audio) r u .refused pool
            { r.tally with rejectedByLink := r.tally.rejectedByLink + 1 } ∧
          pool.free = [3, 4, 5, 6, 7] ∧ r.pool.Renewed pool) ∧
        ∀ later, (∀ x ∈ later, x.Honest) → ∀ callback returned, .freed 3 callback returned ∉
          ((Scene.mk ((dozing.undergo crowded).stack.send (murmur .audio)).2 []).undergo later).stack.hub.history := by
  have opening : dozing.Opening 8 :=
    ⟨⟨⟨{ outstanding := 8 }, some (.uplink { settings := { capacity := 3 } }), some { awake := true, listener := some () },
      [{}], 1⟩, rfl, rfl⟩, rfl⟩
  have honest : ∀ x ∈ crowded, x.Honest := by simp [crowded, Incident.Honest, Move.Honest, Action.Honest]
  obtain ⟨-, ⟨pool, tally, left, counted, free, -, renewed⟩, -, never⟩ := rejected_send_undone 8 dozing crowded (dozing.undergo crowded).stack
    _ _ _ ⟨1, 1, .audio, 0⟩ (murmur .audio) .refused [7] opening honest rfl rfl rfl rfl rfl
  cases counted with
  | refused => exact ⟨opening, honest, _, _, _, rfl, rfl, rfl, ⟨pool, left, free, renewed⟩, never⟩

end Scene

end HubRelay
