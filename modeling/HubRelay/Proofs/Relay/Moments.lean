import HubRelay.Proofs.Relay.Soundness

/-! Why things happened: whatever is recorded of a message can be traced back to the move that did it, and
to the hub as that move found it. -/

set_option autoImplicit false

namespace HubRelay

namespace Traffic

theorem parcel_arriving (t : Traffic) (p : SlotPool Parcel) (j n : Nat) (k : Handle) (es : Multiset (Nat × Errand))
    (parcel : Parcel) (sound : t.Sound) (alive : t.pool = some p) (work : t.errands = (j, .retry k n) ::ₘ es)
    (live : p.live? k = some parcel) :
    ∃ a routing, .arrived n a routing ∈ t.history ∧ routing.Admits ∧ parcel.message = a.message ∧
      parcel.callback = none ∧ parcel.serial = n :=
  (sound.founded p alive k parcel ((SlotPool.mem_occupied_live? _ _ p).mpr live)).arriving
    (retry_serial t p j n k es parcel sound.owned alive work live).1

structure Staffed (t : Traffic) : Prop where
  some : t.desks ≠ []
  closing : ∀ d ∈ t.desks, d.attached = false → d.stopped = true

theorem change_staffed (past : Hub) (t t' : Traffic) (change : Change past t t') (staffed : t.Staffed) : t'.Staffed := by
  have replaced : ∀ i d, (d.attached = false → d.stopped = true) → t'.desks = t.desks.set i d → t'.Staffed := by
    intro i d closing same
    constructor
    · rw [same]
      simpa using staffed.some
    · rw [same]
      intro e member
      rcases List.mem_or_eq_of_mem_set member with old | rfl
      · exact staffed.closing e old
      · exact closing
  cases change with
  | shut i d place => exact replaced i _ (fun _ => rfl) rfl
  | detach i d place stopped => exact replaced i { d with attached := false } (fun _ => stopped) rfl
  | request i d badge known place issued within =>
      exact replaced i { d with nextInst := badge.inst + 1 } (staffed.closing d (List.mem_of_getElem? place)) rfl
  | _ => exact ⟨staffed.some, staffed.closing⟩

end Traffic

namespace Scene

theorem opens_staffed (link : LinkSettings) (c : Scene) (opens : c.Opens link) : c.traffic.Staffed := by
  obtain ⟨-, -, -, -, some, loops⟩ := opens_cases link c opens
  constructor
  · simpa [traffic, Hub.traffic] using some
  · intro d member
    obtain ⟨l, listed, rfl⟩ := List.mem_map.mp member
    obtain ⟨settings, rfl⟩ := loops l listed
    intro gone
    cases gone

theorem run_staffed (link : LinkSettings) (c : Scene) (moves : List Move) (opens : c.Opens link)
    (lawful : ∀ m ∈ moves, m.Lawful) : (c.run moves).traffic.Staffed :=
  (run_invariant moves c _ lawful (opens_blank link c opens).1 (opens_staffed link c opens) Traffic.change_staffed
    fun _ staffed => ⟨staffed.some, staffed.closing⟩).2

theorem run_history (moves : List Move) (c : Scene) (lawful : ∀ m ∈ moves, m.Lawful) (linked : c.stack.Linked)
    (x : Happening) (member : x ∈ c.traffic.history) : x ∈ (c.run moves).traffic.history :=
  (run_invariant moves c (fun t => x ∈ t.history) lawful linked member
    (fun past t t' change held => Traffic.history_within past t t' change x held) fun _ held => held).2

end Scene

end HubRelay
