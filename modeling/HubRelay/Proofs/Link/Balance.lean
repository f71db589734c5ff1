import HubRelay.Proofs.Link.Course

/-! The balance of a link whose listener calls it again from inside completions. For each accepted message
it counts the reports made, those on the agenda, and those that the link still owes because it holds the
message; every step keeps the sum. -/

set_option autoImplicit false

namespace HubRelay

def LinkEvent.accepted? : LinkEvent → Option Nat
  | .accepted serial _ => some serial
  | _ => none

def LinkEvent.reported? : LinkEvent → Option Nat
  | .reported serial _ => some serial
  | _ => none

namespace Frame

def reported? : Frame → Option Nat
  | .report serial _ => some serial
  | _ => none

def settled? : Frame → Option Nat
  | .settle serial => some serial
  | _ => none

def drained : Frame → List (Outgoing × Nat)
  | .failAll serial messages => messages.zipIdx serial
  | _ => []

def Keeps : Frame → Prop
  | .call c => c ≠ .dropListener
  | .script calls => .dropListener ∉ calls
  | _ => True

def Idle (f : Frame) : Prop := f.reported? = none ∧ f.drained = []

end Frame

namespace Course

def reports (serial : Nat) (c : Course) : Nat := (c.rig.history.filterMap LinkEvent.reported?).count serial

def queued (c : Course) : List (Outgoing × Nat) := c.rig.link.queue.toList.zipIdx c.rig.link.oldest

def draining (c : Course) : List (Outgoing × Nat) := c.agenda.flatMap Frame.drained

def held (c : Course) : List (Outgoing × Nat) := c.queued ++ c.draining

def inTransit (c : Course) : List Nat := c.agenda.filterMap Frame.settled?

def pending (serial : Nat) (c : Course) : Nat := (c.agenda.filterMap Frame.reported?).count serial

end Course

-- The reports of a message come before the end of its transmission.
def Settles : List Frame → Prop
  | [] => True
  | .report serial _ :: rest => .settle serial ∈ rest ∧ Settles rest
  | _ :: rest => Settles rest

structure Course.Sound (settings : LinkSettings) (c : Course) : Prop where
  settings : c.rig.link.settings = settings
  heard : c.rig.bound = true ∧ c.rig.listening = true
  scripts : ∀ script ∈ c.rig.scripts, .dropListener ∉ script
  frames : ∀ f ∈ c.agenda, f.Keeps
  tally : c.rig.link.tally.accepted = c.rig.link.tally.completed + c.held.length
  shut : c.rig.link.shutDown = true → c.rig.link.queue.toList = []
  balance : ∀ n, c.reports n + c.pending n + c.rig.link.reports * (c.held.map (·.2)).count n =
    if n < c.rig.link.tally.accepted then c.rig.link.reports else 0
  numbered : c.rig.history.filterMap LinkEvent.accepted? = (List.range c.rig.link.tally.accepted).reverse
  known : ∀ x ∈ c.held, .accepted x.2 x.1 ∈ c.rig.history
  told : ∀ n k, .reported n k ∈ c.rig.history ∨ .report n k ∈ c.agenda →
    ∃ m, .accepted n m ∈ c.rig.history ∧ m.handle = k
  settles : Settles c.agenda

theorem settles_idle (frames rest : List Frame) (idle : ∀ f ∈ frames, f.reported? = none) :
    Settles (frames ++ rest) ↔ Settles rest := by
  induction frames with
  | nil => rfl
  | cons f frames ih =>
      have tail := ih fun g member => idle g (by simp [member])
      have head := idle f (by simp)
      cases f with
      | report => cases head
      | _ => exact tail

theorem Rig.transmit_settles (n : Nat) (m : Outgoing) (fails : Bool) (r : Rig) {rest : List Frame}
    (settles : Settles rest) : Settles ((r.transmit n m fails).1 ++ rest) := by
  unfold transmit
  split
  · rw [List.append_assoc]
    generalize r.link.reports = copies
    induction copies with
    | zero => exact settles
    | succ copies ih => exact ⟨by simp, ih⟩
  · exact settles

structure Rig.Quiet (r next : Rig) : Prop where
  settings : next.link.settings = r.link.settings
  queue : next.link.queue.toList = r.link.queue.toList
  accepted : next.link.tally.accepted = r.link.tally.accepted
  completed : next.link.tally.completed = r.link.tally.completed
  shut : next.link.shutDown = r.link.shutDown
  heard : r.bound = true ∧ r.listening = true → next.bound = true ∧ next.listening = true
  scripts : ∀ script ∈ next.scripts, script ∈ r.scripts
  history : next.history = r.history ∨ ∃ m, next.history = .refused m :: r.history

theorem Uplink.oldest_eq {u v : Uplink} (accepted : v.tally.accepted = u.tally.accepted)
    (queue : v.queue.toList = u.queue.toList) : v.oldest = u.oldest := by
  simp only [Uplink.oldest, accepted, ← Fifo.length_toList, queue]

theorem Uplink.reports_eq {u v : Uplink} (settings : v.settings = u.settings) : v.reports = u.reports := by
  simp only [Uplink.reports, settings]

namespace Course

theorem held_append (r : Rig) (frames rest : List Frame) :
    (Course.mk r (frames ++ rest)).held =
      (Course.mk r rest).queued ++ frames.flatMap Frame.drained ++ (Course.mk r rest).draining := by
  simp [held, queued, draining]

theorem held_idle (r : Rig) (frames rest : List Frame) (idle : ∀ f ∈ frames, f.drained = []) :
    (Course.mk r (frames ++ rest)).held = (Course.mk r rest).held := by
  rw [held_append, List.flatMap_eq_nil_iff.mpr idle, List.append_nil, held]

theorem pending_append (n : Nat) (r : Rig) (frames rest : List Frame) :
    (Course.mk r (frames ++ rest)).pending n =
      (frames.filterMap Frame.reported?).count n + (Course.mk r rest).pending n := by
  simp [pending]

theorem pending_idle (n : Nat) (r : Rig) (frames rest : List Frame) (idle : ∀ f ∈ frames, f.reported? = none) :
    (Course.mk r (frames ++ rest)).pending n = (Course.mk r rest).pending n := by
  rw [pending_append, List.filterMap_eq_nil_iff.mpr idle, List.count_nil, Nat.zero_add]

theorem sound_quiet (settings : LinkSettings) (r next : Rig) (f : Frame) (frames rest : List Frame)
    (sound : (Course.mk r (f :: rest)).Sound settings) (first : f.Idle) (quiet : r.Quiet next)
    (idle : ∀ g ∈ frames, g.Idle) (keeps : ∀ g ∈ frames, g.Keeps) :
    (Course.mk next (frames ++ rest)).Sound settings := by
  have unreported : ∀ g ∈ frames, g.reported? = none := fun g member => (idle g member).1
  have heldEq : (Course.mk next (frames ++ rest)).held = (Course.mk r (f :: rest)).held := by
    rw [held_idle next frames rest fun g member => (idle g member).2,
      show f :: rest = [f] ++ rest from rfl, held_idle r [f] rest (by simpa using first.2)]
    simp only [held, queued, draining, quiet.queue, Uplink.oldest_eq quiet.accepted quiet.queue]
  have pendingEq : ∀ n, (Course.mk next (frames ++ rest)).pending n = (Course.mk r (f :: rest)).pending n := by
    intro n
    rw [pending_idle n next frames rest unreported, show f :: rest = [f] ++ rest from rfl,
      pending_idle n r [f] rest (by simpa using first.1)]
    rfl
  have accepts : next.history.filterMap LinkEvent.accepted? = r.history.filterMap LinkEvent.accepted? := by
    rcases quiet.history with same | ⟨m, more⟩
    · rw [same]
    · rw [more]
      rfl
  have tells : next.history.filterMap LinkEvent.reported? = r.history.filterMap LinkEvent.reported? := by
    rcases quiet.history with same | ⟨m, more⟩
    · rw [same]
    · rw [more]
      rfl
  have grows : ∀ x ∈ r.history, x ∈ next.history := by
    intro x member
    rcases quiet.history with same | ⟨m, more⟩
    · rwa [same]
    · simp [more, member]
  have stays : ∀ n k, .reported n k ∈ next.history → .reported n k ∈ r.history := by
    intro n k member
    rcases quiet.history with same | ⟨m, more⟩
    · rwa [same] at member
    · simpa [more] using member
  constructor
  case settings => exact quiet.settings.trans sound.settings
  case heard => exact quiet.heard sound.heard
  case scripts => exact fun script member => sound.scripts script (quiet.scripts script member)
  case frames =>
    intro g member
    rcases List.mem_append.mp member with new | old
    · exact keeps g new
    · exact sound.frames g (by simp [old])
  case tally => simpa only [quiet.accepted, quiet.completed, heldEq] using sound.tally
  case shut => simpa only [quiet.shut, quiet.queue] using sound.shut
  case balance =>
    intro n
    simpa only [reports, tells, pendingEq, heldEq, quiet.accepted, Uplink.reports_eq quiet.settings] using
      sound.balance n
  case numbered => simpa only [accepts, quiet.accepted] using sound.numbered
  case known =>
    intro x member
    exact grows _ (sound.known x (by simpa only [heldEq] using member))
  case told =>
    intro n k told
    have before : .reported n k ∈ r.history ∨ .report n k ∈ f :: rest := by
      rcases told with made | due
      · exact .inl (stays n k made)
      · rcases List.mem_append.mp due with new | old
        · have none := unreported _ new
          cases none
        · exact .inr (by simp [old])
    obtain ⟨m, accepted, handle⟩ := sound.told n k before
    exact ⟨m, grows _ accepted, handle⟩
  case settles =>
    have old : Settles ([f] ++ rest) := sound.settles
    rw [settles_idle [f] rest (by simpa using first.1)] at old
    exact (settles_idle frames rest unreported).mpr old

theorem sound_transmit (settings : LinkSettings) (r : Rig) (link : Uplink) (f next : Frame) (rest : List Frame)
    (n : Nat) (m : Outgoing) (fails : Bool) (sound : (Course.mk r (f :: rest)).Sound settings)
    (unreported : f.reported? = none) (same : link.settings = r.link.settings)
    (tally : link.tally = r.link.tally) (shut : link.shutDown = true → link.queue.toList = [])
    (held : (Course.mk r (f :: rest)).held.Perm
      ((m, n) :: (Course.mk { r with link := link } (next :: rest)).held))
    (nextKeeps : next.Keeps) (nextUnreported : next.reported? = none) :
    (Course.mk (({ r with link := link } : Rig).transmit n m fails).2
      ((({ r with link := link } : Rig).transmit n m fails).1 ++ next :: rest)).Sound settings := by
  have heard : r.bound = true ∧ r.listening = true := sound.heard
  have alive : ({ r with link := link } : Rig).reachable = true := by simp [Rig.reachable, heard]
  have reportsEq : link.reports = r.link.reports := Uplink.reports_eq same
  generalize transmitted : ({ r with link := link } : Rig).transmit n m fails = result
  simp only [Rig.transmit, alive, if_pos] at transmitted
  cases transmitted
  have heldEq : (Course.mk { (Rig.onLink (·.record m fails) { r with link := link }) with held := r.held + 1 }
      (List.replicate link.reports (.report n m.handle) ++ [.letGo, .settle n] ++ next :: rest)).held =
      (Course.mk { r with link := link } (next :: rest)).held := by
    rw [held_idle]
    · simp [Course.held, queued, draining, Rig.onLink, Uplink.oldest]
    · intro g member
      simp only [List.mem_append, List.mem_replicate, List.mem_cons, List.not_mem_nil, or_false] at member
      rcases member with ⟨_, rfl⟩ | rfl | rfl <;> rfl
  have pendingEq : ∀ k, (Course.mk { (Rig.onLink (·.record m fails) { r with link := link }) with held := r.held + 1 }
      (List.replicate link.reports (.report n m.handle) ++ [.letGo, .settle n] ++ next :: rest)).pending k =
      (if n = k then r.link.reports else 0) + (Course.mk r (f :: rest)).pending k := by
    intro k
    have quietTail : ([.letGo, .settle n] : List Frame).filterMap Frame.reported? = [] := rfl
    rw [pending_append, List.filterMap_append, List.filterMap_replicate, quietTail, List.append_nil]
    simp only [Frame.reported?, List.count_replicate, beq_iff_eq, reportsEq, pending,
      List.filterMap_cons_none unreported, List.filterMap_cons_none nextUnreported]
  constructor
  case settings => simpa [Rig.onLink] using same.trans sound.settings
  case heard => exact sound.heard
  case scripts => exact sound.scripts
  case frames =>
    intro g member
    simp only [List.mem_append, List.mem_replicate, List.mem_cons, List.not_mem_nil, or_false] at member
    rcases member with (⟨_, rfl⟩ | rfl | rfl) | rfl | old
    · trivial
    · trivial
    · trivial
    · exact nextKeeps
    · exact sound.frames g (by simp [old])
  case tally =>
    have before := sound.tally
    rw [held.length_eq, List.length_cons] at before
    rw [heldEq]
    simp only [Rig.onLink, Uplink.record_accepted, Uplink.record_completed, tally] at *
    omega
  case shut => simpa [Rig.onLink] using shut
  case balance =>
    intro k
    have before := sound.balance k
    have count := (held.map (·.2)).count_eq k
    rw [List.map_cons, List.count_cons] at count
    rw [heldEq, pendingEq]
    simp only [Rig.onLink, Uplink.record_accepted, tally, reports, Uplink.reports_eq (Uplink.record_settings m fails link),
      reportsEq, beq_iff_eq] at before count ⊢
    rw [count] at before
    by_cases here : n = k
    · simp only [here, if_true, Nat.mul_add, Nat.mul_one] at before ⊢
      omega
    · simp only [here, if_false, Nat.add_zero] at before ⊢
      omega
  case numbered => simpa [Rig.onLink, tally] using sound.numbered
  case known =>
    intro x member
    rw [heldEq] at member
    exact sound.known x (held.mem_iff.mpr (List.mem_cons_of_mem _ member))
  case told =>
    intro k handle told
    have first := sound.known (m, n) (held.mem_iff.mpr List.mem_cons_self)
    have before : (k = n ∧ handle = m.handle) ∨ .reported k handle ∈ r.history ∨ .report k handle ∈ f :: rest := by
      rcases told with made | due
      · exact .inr (.inl made)
      · simp only [List.mem_append, List.mem_replicate, List.mem_cons, List.not_mem_nil, or_false, Frame.report.injEq,
          reduceCtorEq] at due
        rcases due with ⟨_, same⟩ | rfl | old
        · exact .inl same
        · cases nextUnreported
        · exact .inr (.inr (by simp [old]))
    rcases before with ⟨rfl, rfl⟩ | old
    · exact ⟨m, first, rfl⟩
    · exact sound.told k handle old
  case settles =>
    have old : Settles ([f] ++ rest) := sound.settles
    rw [settles_idle [f] rest (by simpa using unreported)] at old
    have after : Settles (next :: rest) := (settles_idle [next] rest (by simpa using nextUnreported)).mpr old
    have sent := Rig.transmit_settles n m fails ({ r with link := link } : Rig) after
    simpa only [Rig.transmit, alive, if_pos] using sent

theorem sound_report (settings : LinkSettings) (r : Rig) (n : Nat) (k : Handle) (rest : List Frame)
    (sound : (Course.mk r (.report n k :: rest)).Sound settings) :
    (Course.mk (r.step (.report n k)).2 ((r.step (.report n k)).1 ++ rest)).Sound settings := by
  obtain ⟨m, accepted, handle⟩ := sound.told n k (.inr (by simp))
  -- Once the report counts as made, the script that follows it is a step that concerns no message.
  have made : (Course.mk { r with history := .reported n k :: r.history } (.answer :: rest)).Sound settings := by
    constructor
    case settings => exact sound.settings
    case heard => exact sound.heard
    case scripts => exact sound.scripts
    case frames =>
      intro g member
      rcases List.mem_cons.mp member with rfl | old
      · trivial
      · exact sound.frames g (by simp [old])
    case tally => exact sound.tally
    case shut => exact sound.shut
    case balance =>
      intro j
      have before := sound.balance j
      have due : (Course.mk r (.report n k :: rest)).pending j =
          (Course.mk r (.answer :: rest)).pending j + if n = j then 1 else 0 := by
        simp only [pending, List.filterMap_cons, Frame.reported?, List.count_cons, beq_iff_eq]
      have told : (Course.mk { r with history := .reported n k :: r.history } (.answer :: rest)).reports j =
          (Course.mk r (.report n k :: rest)).reports j + if n = j then 1 else 0 := by
        simp only [reports, List.filterMap_cons, LinkEvent.reported?, List.count_cons, beq_iff_eq]
      rw [due] at before
      rw [told]
      change _ + (Course.mk r (.answer :: rest)).pending j + _ * ((Course.mk r (.report n k :: rest)).held.map (·.2)).count j = _
      simp only at before ⊢
      omega
    case numbered => exact sound.numbered
    case known => exact fun x member => List.mem_cons_of_mem _ (sound.known x member)
    case told =>
      intro j handle told
      have before : (j = n ∧ handle = k) ∨ .reported j handle ∈ r.history ∨ .report j handle ∈ Frame.report n k :: rest := by
        rcases told with made | due
        · rcases List.mem_cons.mp made with first | old
          · exact .inl (by simpa using first)
          · exact .inr (.inl old)
        · exact .inr (.inr (List.mem_cons_of_mem _ (by simpa using due)))
      rcases before with ⟨rfl, rfl⟩ | old
      · exact ⟨m, List.mem_cons_of_mem _ accepted, by assumption⟩
      · obtain ⟨m, known, same⟩ := sound.told j handle old
        exact ⟨m, List.mem_cons_of_mem _ known, same⟩
    case settles => exact sound.settles.2
  have quiet : Rig.Quiet { r with history := .reported n k :: r.history } (r.step (.report n k)).2 := by
    simp only [Rig.step, Rig.note, Rig.record]
    cases scripts : r.scripts with
    | nil => exact ⟨rfl, rfl, rfl, rfl, rfl, id, by simp, .inl rfl⟩
    | cons script tail => exact ⟨rfl, rfl, rfl, rfl, rfl, id, by simp +contextual, .inl rfl⟩
  have follows : (r.step (.report n k)).1 = [] ∨ ∃ script ∈ r.scripts, (r.step (.report n k)).1 = [.script script] := by
    simp only [Rig.step, Rig.note, Rig.record]
    cases r.scripts with
    | nil => exact .inl rfl
    | cons script tail => exact .inr ⟨script, by simp, rfl⟩
  apply sound_quiet settings _ _ .answer _ rest made ⟨rfl, rfl⟩ quiet
  · intro g member
    rcases follows with none | ⟨script, _, one⟩
    · simp [none] at member
    · rw [one, List.mem_singleton] at member
      exact member ▸ ⟨rfl, rfl⟩
  · intro g member
    rcases follows with none | ⟨script, known, one⟩
    · simp [none] at member
    · rw [one, List.mem_singleton] at member
      exact member ▸ sound.scripts script known

theorem oldest_add_length (settings : LinkSettings) (c : Course) (sound : c.Sound settings) :
    c.rig.link.oldest + c.rig.link.queue.length = c.rig.link.tally.accepted := by
  have tally := sound.tally
  simp only [held, queued, List.length_append, List.length_zipIdx, Fifo.length_toList] at tally
  simp only [Uplink.oldest]
  omega

theorem sound_accept (settings : LinkSettings) (r : Rig) (m : Outgoing) (reply : Reply) (rest : List Frame)
    (sound : (Course.mk r (.call (.send m) :: rest)).Sound settings) (taken : (r.link.send m).1 = true) :
    (Course.mk { r with link := (r.link.send m).2, history := .accepted r.link.tally.accepted m :: r.history, reply := reply }
      rest).Sound settings := by
  have full : r.link.oldest + r.link.queue.length = r.link.tally.accepted := oldest_add_length settings _ sound
  unfold Uplink.send at taken ⊢
  split at taken
  · cases taken
  · rename_i room
    rw [if_neg room]
    have opened : r.link.shutDown = false := by
      simp only [Bool.or_eq_true, not_or, Bool.not_eq_true] at room
      exact room.1
    generalize nextEq : ({ r with
        link := { r.link with
          queue := r.link.queue.push m, tally := { r.link.tally with accepted := r.link.tally.accepted + 1 } }
        history := .accepted r.link.tally.accepted m :: r.history, reply := reply } : Rig) = next
    have queue : next.link.queue.toList = r.link.queue.toList ++ [m] := by simp [← nextEq]
    have accepted : next.link.tally.accepted = r.link.tally.accepted + 1 := by simp [← nextEq]
    have history : next.history = .accepted r.link.tally.accepted m :: r.history := by simp [← nextEq]
    have oldest : next.link.oldest = r.link.oldest := by
      simp only [Uplink.oldest, accepted, ← Fifo.length_toList, queue, List.length_append, List.length_singleton]
      omega
    have heldEq : (Course.mk next rest).held.Perm
        ((m, r.link.tally.accepted) :: (Course.mk r (.call (.send m) :: rest)).held) := by
      have index : r.link.oldest + r.link.queue.toList.length = r.link.tally.accepted := by
        rw [Fifo.length_toList, full]
      simp only [Course.held, queued, draining, queue, oldest, List.zipIdx_append, index, List.flatMap_cons]
      rw [List.append_assoc]
      exact List.perm_middle
    have reportsEq : next.link.reports = r.link.reports := Uplink.reports_eq (by simp [← nextEq])
    constructor
    case settings => simpa [← nextEq] using sound.settings
    case heard => simpa [← nextEq] using sound.heard
    case scripts => simpa [← nextEq] using sound.scripts
    case frames => exact fun g member => sound.frames g (by simp [show g ∈ rest from member])
    case tally =>
      have before := sound.tally
      rw [heldEq.length_eq, List.length_cons]
      simp only [accepted, show next.link.tally.completed = r.link.tally.completed by simp [← nextEq, LinkTally.completed]]
      simp only at before
      omega
    case shut => simp [← nextEq, opened]
    case balance =>
      intro n
      have before := sound.balance n
      have count := (heldEq.map (·.2)).count_eq n
      rw [List.map_cons, List.count_cons] at count
      have fresh : (Course.mk next rest).reports n = (Course.mk r (.call (.send m) :: rest)).reports n := by
        simp only [reports, history, List.filterMap_cons, LinkEvent.reported?]
      have due : (Course.mk next rest).pending n = (Course.mk r (.call (.send m) :: rest)).pending n := rfl
      rw [fresh, due, count]
      simp only [accepted, reportsEq, beq_iff_eq] at before ⊢
      by_cases here : r.link.tally.accepted = n
      · simp only [here, if_true, Nat.lt_irrefl, if_false, Nat.lt_succ_self, Nat.mul_add, Nat.mul_one] at before ⊢
        omega
      · have same : n < r.link.tally.accepted + 1 ↔ n < r.link.tally.accepted := by omega
        simp only [here, if_false, Nat.add_zero, same]
        exact before
    case numbered =>
      have before := sound.numbered
      simp only [history, List.filterMap_cons, LinkEvent.accepted?, accepted, List.range_succ, List.reverse_append,
        List.reverse_singleton, List.singleton_append] at before ⊢
      rw [before]
    case known =>
      intro x member
      simp only [history]
      rcases List.mem_cons.mp (heldEq.mem_iff.mp member) with rfl | old
      · exact List.mem_cons_self
      · exact List.mem_cons_of_mem _ (sound.known x old)
    case told =>
      intro n k told
      have before : .reported n k ∈ r.history ∨ .report n k ∈ Frame.call (.send m) :: rest := by
        rcases told with made | due
        · simp only [history, List.mem_cons, reduceCtorEq, false_or] at made
          exact .inl made
        · exact .inr (List.mem_cons_of_mem _ due)
      obtain ⟨m', known, handle⟩ := sound.told n k before
      exact ⟨m', by simp only [history]; exact List.mem_cons_of_mem _ known, handle⟩
    case settles => exact sound.settles

theorem sound_close (settings : LinkSettings) (r : Rig) (rest : List Frame)
    (sound : (Course.mk r (.close :: rest)).Sound settings) :
    (Course.mk (r.step .close).2 ((r.step .close).1 ++ rest)).Sound settings := by
  have heldEq : (Course.mk (r.step .close).2 ((r.step .close).1 ++ rest)).held = (Course.mk r (.close :: rest)).held := by
    simp [held, queued, draining, Rig.step, Uplink.takeAll, Uplink.close, Frame.drained]
  constructor
  case settings => exact sound.settings
  case heard => exact sound.heard
  case scripts => exact sound.scripts
  case frames =>
    intro g member
    rcases List.mem_cons.mp member with rfl | old
    · trivial
    · exact sound.frames g (List.mem_cons_of_mem _ old)
  case tally =>
    rw [heldEq]
    exact sound.tally
  case shut => exact fun _ => rfl
  case balance =>
    intro n
    rw [heldEq]
    exact sound.balance n
  case numbered => exact sound.numbered
  case known =>
    intro x member
    exact sound.known x (heldEq ▸ member)
  case told =>
    intro n k told
    apply sound.told n k
    rcases told with made | due
    · exact .inl made
    · exact .inr (by simpa [Rig.step] using due)
  case settles => exact sound.settles

theorem catch_up_idle (r : Rig) : ∀ g ∈ r.catchUp, g.Idle ∧ g.Keeps := by
  intro g member
  obtain rfl := Rig.catch_up_frames member
  exact ⟨⟨rfl, rfl⟩, trivial⟩

theorem sound_call (settings : LinkSettings) (r : Rig) (c : LinkCall) (rest : List Frame)
    (sound : (Course.mk r (.call c :: rest)).Sound settings) :
    (Course.mk (r.call c).2 ((r.call c).1 ++ rest)).Sound settings := by
  have quiet : ∀ next frames, r.Quiet next → (∀ g ∈ frames, g.Idle ∧ g.Keeps) →
      (Course.mk next (frames ++ rest)).Sound settings := fun next frames quiet idle =>
    sound_quiet settings r next (.call c) frames rest sound ⟨rfl, rfl⟩ quiet
      (fun g member => (idle g member).1) fun g member => (idle g member).2
  have unchanged : r.Quiet r := ⟨rfl, rfl, rfl, rfl, rfl, id, fun _ => id, .inl rfl⟩
  have none : ∀ g ∈ ([] : List Frame), g.Idle ∧ g.Keeps := by simp
  cases c with
  | uplink c =>
      cases c with
      | start =>
          simp only [Rig.call]
          split
          · rename_i link started
            obtain rfl := Uplink.start_ok started
            exact quiet _ _ ⟨rfl, rfl, rfl, rfl, rfl, id, fun _ => id, .inl rfl⟩ none
          · exact quiet _ _ ⟨rfl, rfl, rfl, rfl, rfl, id, fun _ => id, .inl rfl⟩ none
      | pump limit =>
          apply quiet r [.pump limit 0] unchanged
          intro g member
          rw [List.mem_singleton] at member
          exact member ▸ ⟨⟨rfl, rfl⟩, trivial⟩
      | pause | resume | spoil | takeReceived =>
          exact quiet _ _ ⟨rfl, rfl, rfl, rfl, rfl, id, fun _ => id, .inl rfl⟩ none
  | send m =>
      simp only [Rig.call]
      cases taken : (r.link.send m).1 with
      | true => exact sound_accept settings r m (.flag true) rest sound taken
      | false =>
          apply quiet _ _ _ none
          unfold Uplink.send at taken ⊢
          split at taken
          · rename_i full
            rw [if_pos full]
            exact ⟨rfl, rfl, rfl, rfl, rfl, id, fun _ => id, .inr ⟨m, rfl⟩⟩
          · cases taken
  | flush =>
      refine quiet r (r.catchUp ++ [.flushed]) unchanged ?_
      intro g member
      rcases List.mem_append.mp member with first | last
      · exact catch_up_idle r g first
      · rw [List.mem_singleton] at last
        exact last ▸ ⟨⟨rfl, rfl⟩, trivial⟩
  | shutdown =>
      simp only [Rig.call]
      split
      · exact quiet _ _ ⟨rfl, rfl, rfl, rfl, rfl, id, fun _ => id, .inl rfl⟩ none
      · refine quiet r (r.catchUp ++ [.close]) unchanged ?_
        intro g member
        rcases List.mem_append.mp member with first | last
        · exact catch_up_idle r g first
        · rw [List.mem_singleton] at last
          exact last ▸ ⟨⟨rfl, rfl⟩, trivial⟩
  | deliver =>
      simp only [Rig.call]
      split <;> exact quiet _ _ ⟨rfl, rfl, rfl, rfl, rfl, id, fun _ => id, .inl rfl⟩ none
  | bind =>
      simp only [Rig.call]
      split
      · exact quiet _ _ ⟨rfl, rfl, rfl, rfl, rfl, fun heard => ⟨rfl, heard.2⟩, fun _ => id, .inl rfl⟩ none
      · exact quiet _ _ ⟨rfl, rfl, rfl, rfl, rfl, id, fun _ => id, .inl rfl⟩ none
  | dropListener => exact absurd rfl (sound.frames (.call .dropListener) List.mem_cons_self)
  | malformed => exact quiet _ _ ⟨rfl, rfl, rfl, rfl, rfl, id, fun _ => id, .inl rfl⟩ none

theorem sound_take (settings : LinkSettings) (r : Rig) (link : Uplink) (f next : Frame) (rest : List Frame)
    (m : Outgoing) (fails : Bool) (sound : (Course.mk r (f :: rest)).Sound settings) (idle : f.Idle)
    (taken : r.link.take? = some (m, fails, link)) (nextKeeps : next.Keeps) (nextIdle : next.Idle) :
    (Course.mk (({ r with link := link } : Rig).transmit r.link.oldest m fails).2
      ((({ r with link := link } : Rig).transmit r.link.oldest m fails).1 ++ next :: rest)).Sound settings := by
  obtain ⟨queue, same, tally, shut, _⟩ := Uplink.take_some taken
  have full : r.link.oldest + r.link.queue.length = r.link.tally.accepted := oldest_add_length settings _ sound
  have shorter := Uplink.take_length taken
  have oldest : link.oldest = r.link.oldest + 1 := by
    simp only [Uplink.oldest, tally]
    omega
  apply sound_transmit settings r link f next rest r.link.oldest m fails sound idle.1 same tally
  · intro closed
    have emptied : r.link.queue.toList = [] := sound.shut (shut ▸ closed)
    rw [queue] at emptied
    cases emptied
  · simp only [held, queued, draining, queue, oldest, List.zipIdx_cons, List.flatMap_cons, idle.2, nextIdle.2]
    exact .refl _
  · exact nextKeeps
  · exact nextIdle.1

theorem sound_draws (settings : LinkSettings) {r : Rig} {f : Frame} {rest : List Frame}
    (sound : (Course.mk r (f :: rest)).Sound settings) (idle : f.Idle) (draws : r.Draws f) :
    (Course.mk (r.step f).2 ((r.step f).1 ++ rest)).Sound settings := by
  cases draws with
  | rests reply stepped =>
      rw [stepped]
      exact sound_quiet settings r _ f [] rest sound idle ⟨rfl, rfl, rfl, rfl, rfl, id, fun _ => id, .inl rfl⟩ (by simp)
        (by simp)
  | takes m fails link next taken goes stepped =>
      rw [stepped, List.append_assoc, List.singleton_append]
      apply sound_take settings r link f next rest m fails sound idle taken
      · rcases goes with rfl | ⟨left, sent, rfl⟩ <;> trivial
      · rcases goes with rfl | ⟨left, sent, rfl⟩ <;> exact ⟨rfl, rfl⟩

theorem sound_step (settings : LinkSettings) (r : Rig) (f : Frame) (rest : List Frame)
    (sound : (Course.mk r (f :: rest)).Sound settings) :
    (Course.mk (r.step f).2 ((r.step f).1 ++ rest)).Sound settings := by
  have none : ∀ g ∈ ([] : List Frame), g.Idle ∧ g.Keeps := by simp
  have quiet : f.Idle → ∀ next, r.Quiet next → (Course.mk next ([] ++ rest)).Sound settings := fun idle next quiet =>
    sound_quiet settings r next f [] rest sound idle quiet (by simp) (by simp)
  cases f with
  | call c => exact sound_call settings r c rest sound
  | answer | flushed | letGo | settle =>
      exact quiet ⟨rfl, rfl⟩ _ ⟨rfl, rfl, rfl, rfl, rfl, id, fun _ => id, .inl rfl⟩
  | script calls =>
      cases calls with
      | nil => exact quiet ⟨rfl, rfl⟩ r ⟨rfl, rfl, rfl, rfl, rfl, id, fun _ => id, .inl rfl⟩
      | cons c calls =>
          have keeps : .dropListener ∉ c :: calls := sound.frames (.script (c :: calls)) List.mem_cons_self
          rw [List.mem_cons, not_or] at keeps
          apply sound_quiet settings r r (.script (c :: calls)) [.call c, .answer, .script calls] rest sound ⟨rfl, rfl⟩
            ⟨rfl, rfl, rfl, rfl, rfl, id, fun _ => id, .inl rfl⟩
          · simp [Frame.Idle, Frame.reported?, Frame.drained]
          · simpa [Frame.Keeps] using ⟨Ne.symm keeps.1, keeps.2⟩
  | pump left sent => exact sound_draws settings sound ⟨rfl, rfl⟩ (r.pump_draws left sent)
  | haul => exact sound_draws settings sound ⟨rfl, rfl⟩ r.haul_draws
  | report n k => exact sound_report settings r n k rest sound
  | close => exact sound_close settings r rest sound
  | failAll n messages =>
      cases messages with
      | nil => exact quiet ⟨rfl, rfl⟩ _ ⟨rfl, rfl, rfl, rfl, rfl, id, fun _ => id, .inl rfl⟩
      | cons m messages =>
          simp only [Rig.step, List.append_assoc, List.singleton_append]
          apply sound_transmit settings r r.link (.failAll n (m :: messages)) (.failAll (n + 1) messages) rest n m true
            sound rfl rfl rfl sound.shut
          · simp only [held, queued, draining, List.flatMap_cons, Frame.drained, List.zipIdx_cons, List.cons_append]
            exact List.perm_middle
          · trivial
          · rfl

theorem sound_start (settings : LinkSettings) (scripts : List (List LinkCall)) (routing : Routing)
    (kept : ∀ script ∈ scripts, .dropListener ∉ script) : (start settings scripts routing).Sound settings := by
  constructor
  case scripts => exact kept
  case balance => simp [start, reports, pending, held, queued, draining, Fifo.toList_empty]
  all_goals simp [start, held, queued, draining, LinkTally.completed, Settles, Fifo.toList_empty]

theorem sound_turn (settings : LinkSettings) (t : Turn) (c : Course) (alive : t ≠ .call .dropListener)
    (sound : c.Sound settings) : (c.turn t).Sound settings := by
  rcases c with ⟨r, agenda⟩
  have single : ∀ f : Frame, agenda = [] → f.Idle → f.Keeps → (Course.mk r [f]).Sound settings := by
    rintro f rfl idle keeps
    -- An empty agenda is as good as one that has only a note left to be made.
    have noted : (Course.mk r [.answer]).Sound settings := by
      rcases sound with ⟨same, heard, scripts, _, tally, shut, balance, numbered, known, told, _⟩
      exact ⟨same, heard, scripts, by simp [Frame.Keeps], tally, shut, balance, numbered, known,
        fun n k told' => told n k (by simpa using told'), trivial⟩
    exact sound_quiet settings r r .answer [f] [] noted ⟨rfl, rfl⟩ ⟨rfl, rfl, rfl, rfl, rfl, id, fun _ => id, .inl rfl⟩
      (by simpa using idle) (by simpa using keeps)
  cases agenda with
  | nil =>
      cases t with
      | call c =>
          exact single (.call c) rfl ⟨rfl, rfl⟩ fun same => alive (by rw [same])
      | haul => exact single .haul rfl ⟨rfl, rfl⟩ trivial
      | step => exact sound
  | cons f rest =>
      cases t with
      | call c => exact sound
      | haul => exact sound
      | step => exact sound_step settings r f rest sound

theorem sound_run (settings : LinkSettings) (turns : List Turn) (c : Course) (alive : .call .dropListener ∉ turns)
    (sound : c.Sound settings) : (c.run turns).Sound settings :=
  run_invariant (·.Sound settings) (· ≠ .call .dropListener) (sound_turn settings) turns c
    (fun _ member same => alive (same ▸ member)) sound

end Course

end HubRelay
