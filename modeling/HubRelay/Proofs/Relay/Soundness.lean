import HubRelay.Proofs.Relay.Unreported

/-! Scenes from their opening on: their slots are owned, and their history agrees with the pool. -/

set_option autoImplicit false

namespace HubRelay

structure Traffic.Sound (t : Traffic) : Prop where
  owned : t.Owned
  numbered : t.Numbered
  founded : t.Founded
  reported : t.Reported

theorem Traffic.change_sound (past : Hub) (t t' : Traffic) (change : Change past t t') (sound : t.Sound) : t'.Sound where
  owned := change_owned past t t' change sound.owned
  numbered := change_numbered past t t' change sound.numbered
  founded := change_founded past t t' change sound.owned sound.founded
  reported := change_reported past t t' change sound.owned sound.numbered sound.reported

theorem Traffic.bereft_sound (t : Traffic) (sound : t.Sound) : t.bereft.Sound where
  owned := fun _ alive => by cases alive
  numbered := ⟨fun alive => (nomatch alive), sound.numbered.apart⟩
  founded := fun _ alive => by cases alive
  reported := ⟨sound.reported.balance, fun _ alive => by cases alive⟩

structure Traffic.Blank (t : Traffic) : Prop where
  pool : ∃ n, t.pool = some (SlotPool.ofCapacity n)
  waiting : t.waiting = 0
  errands : t.errands = 0
  history : t.history = []

theorem Traffic.blank_sound (t : Traffic) (blank : t.Blank) : t.Sound := by
  obtain ⟨n, pool⟩ := blank.pool
  have empty : ∀ p, t.pool = some p → p.Sound ∧ p.occupied = 0 := by
    intro p alive
    rw [pool] at alive
    cases alive
    exact ⟨SlotPool.sound_ofCapacity n, SlotPool.occupied_ofCapacity n⟩
  constructor
  · intro p alive
    obtain ⟨sound, none⟩ := empty p alive
    refine ⟨sound, ?_⟩
    rw [SlotPool.holdings, none, holders, blank.waiting, blank.errands]
    rfl
  · constructor <;> simp [blank.history]
  · intro p alive k parcel member
    rw [(empty p alive).2] at member
    exact (Multiset.notMem_zero _ member).elim
  · constructor
    · simp [blank.history, unreported]
    · intro p alive
      rw [SlotPool.sent, (empty p alive).2, blank.history]
      rfl

namespace Scene

theorem opens_cases (link : LinkSettings) (c : Scene) (opens : c.Opens link) :
    c.hand = [] ∧ c.stack.link = .uplink { settings := link } ∧ c.stack.hub.history = [] ∧
      (∃ r n, c.stack.hub.relay = some r ∧ r.pool = SlotPool.ofCapacity n ∧ r.tally = {}) ∧
      c.stack.hub.loops ≠ [] ∧ ∀ l ∈ c.stack.hub.loops, ∃ settings, l = { settings := settings } := by
  obtain ⟨⟨b, linked, built⟩, idle⟩ := opens
  obtain ⟨s, hand⟩ := c
  unfold Blueprint.build at built
  rw [linked] at built
  split at built
  · cases built
  · cases built
  · next link' power same _ =>
      cases same
      split at built
      · cases built
      · next many =>
          split at built
          · cases built
          · next pool created =>
              unfold SlotPool.create at created
              split at created
              · cases created
                cases built
                refine ⟨idle, rfl, rfl, ⟨_, _, rfl, rfl, rfl⟩, ?_, ?_⟩
                · intro none
                  simp only [List.map_eq_nil_iff] at none
                  exact many (by rw [none]; simp)
                · intro l member
                  obtain ⟨settings, -, rfl⟩ := List.mem_map.mp member
                  exact ⟨settings, rfl⟩
              · cases created

theorem opens_blank (link : LinkSettings) (c : Scene) (opens : c.Opens link) :
    c.stack.Linked ∧ c.traffic.Blank := by
  obtain ⟨idle, linked, history, ⟨r, n, relay, pool, -⟩, -, loops⟩ := opens_cases link c opens
  refine ⟨⟨_, linked⟩, ⟨n, ?_⟩, ?_, ?_, history⟩
  · simp only [traffic, Hub.traffic, relay, Option.map_some, pool]
  · simp only [traffic, Hub.traffic, linked, Link.waiting]
    rfl
  · simp only [traffic, Hub.traffic, idle]
    rw [gather_none]
    · rfl
    · intro i l place
      obtain ⟨settings, rfl⟩ := loops l (List.mem_of_getElem? place)
      rfl

theorem run_sound (link : LinkSettings) (c : Scene) (moves : List Move) (opens : c.Opens link)
    (lawful : ∀ m ∈ moves, m.Lawful) : (c.run moves).stack.Linked ∧ (c.run moves).traffic.Sound := by
  obtain ⟨linked, blank⟩ := opens_blank link c opens
  exact run_invariant moves c _ lawful linked (Traffic.blank_sound _ blank) Traffic.change_sound Traffic.bereft_sound

theorem run_alive (moves : List Move) (c : Scene) (lawful : ∀ m ∈ moves, m.Lawful) (kept : .dropRelay ∉ moves)
    (linked : c.stack.Linked) (alive : c.traffic.pool.isSome) : (c.run moves).traffic.pool.isSome := by
  induction moves generalizing c with
  | nil => exact alive
  | cons m rest ih =>
      obtain ⟨linked', change⟩ := move_follows m c (lawful m (by simp)) linked
      refine ih (c.move m) (fun m' member => lawful m' (by simp [member])) (fun member => kept (by simp [member])) linked' ?_
      rcases change with follows | ⟨rfl, -⟩
      · refine follows_invariant _ _ _ (fun t => t.pool.isSome) follows alive fun t t' change living => ?_
        cases change <;> simp_all
      · exact absurd List.mem_cons_self kept

end Scene

end HubRelay
