import HubRelay.Proofs.Link.Balance
import HubRelay.Proofs.Link.Shutdown

/-! What the listener of a link can rely on: every accepted message is reported to it as often as the link
is set to report it, once the link is done with the message. -/

set_option autoImplicit false

namespace HubRelay

namespace Course

theorem reported_settles (n : Nat) (k : Handle) (agenda : List Frame) (settles : Settles agenda)
    (due : .report n k ∈ agenda) : .settle n ∈ agenda := by
  induction agenda with
  | nil => cases due
  | cons f rest ih =>
      rcases List.mem_cons.mp due with rfl | later
      · exact List.mem_cons_of_mem _ settles.1
      · cases f with
        | report => exact List.mem_cons_of_mem _ (ih settles.2 later)
        | _ => exact List.mem_cons_of_mem _ (ih settles later)

theorem pending_pos (n : Nat) (c : Course) : 0 < c.pending n ↔ ∃ k, .report n k ∈ c.agenda := by
  rw [pending, List.count_pos_iff, List.mem_filterMap]
  constructor
  · rintro ⟨f, member, reported⟩
    cases f with
    | report serial k =>
        cases reported
        exact ⟨k, member⟩
    | _ => cases reported
  · rintro ⟨k, member⟩
    exact ⟨_, member, rfl⟩

theorem held_count_zero (n : Nat) (c : Course) : (c.held.map (·.2)).count n = 0 ↔ ∀ x ∈ c.held, x.2 ≠ n := by
  rw [List.count_eq_zero, List.mem_map]
  exact ⟨fun none x member same => none ⟨x, member, same⟩, fun none ⟨x, member, same⟩ => none x member same⟩

def dues (settings : LinkSettings) : Nat := if settings.duplicates then 2 else 1

structure ReportsEach (settings : LinkSettings) (c : Course) : Prop where
  -- A message that is neither held nor in transit was reported as often as the link is set to.
  gone : ∀ n m, .accepted n m ∈ c.rig.history → (∀ x ∈ c.held, x.2 ≠ n) → n ∉ c.inTransit → c.reports n = dues settings
  never_more : ∀ n, c.reports n ≤ dues settings
  -- A message that is being reported is no longer held.
  let_go : ∀ n k rest, c.agenda = .report n k :: rest → ∀ x ∈ c.held, x.2 ≠ n
  only_accepted : ∀ n k, .reported n k ∈ c.rig.history → ∃ m, .accepted n m ∈ c.rig.history ∧ m.handle = k
  apart : (c.rig.history.filterMap LinkEvent.accepted?).Nodup
  numbered : ∀ x ∈ c.held, .accepted x.2 x.1 ∈ c.rig.history
  tally : c.agenda = [] →
    c.rig.link.tally.accepted = c.rig.link.tally.transmitted + c.rig.link.tally.failed + c.rig.link.queue.length
  shutdown : c.agenda = [] → ∀ n m, .accepted n m ∈ (c.rig.run [.call .shutdown]).history →
    (Course.mk (c.rig.run [.call .shutdown]) []).reports n = dues settings

theorem reports_dues (settings : LinkSettings) (c : Course) (sound : c.Sound settings) :
    c.rig.link.reports = dues settings := by
  simp only [Uplink.reports, sound.settings, dues]

theorem accepted_below (settings : LinkSettings) (c : Course) (sound : c.Sound settings) (n : Nat) (m : Outgoing)
    (accepted : .accepted n m ∈ c.rig.history) : n < c.rig.link.tally.accepted := by
  have member : n ∈ c.rig.history.filterMap LinkEvent.accepted? := List.mem_filterMap.mpr ⟨_, accepted, rfl⟩
  rw [sound.numbered] at member
  simpa using member

theorem gone_reported (settings : LinkSettings) (c : Course) (sound : c.Sound settings) (n : Nat) (m : Outgoing)
    (accepted : .accepted n m ∈ c.rig.history) (released : ∀ x ∈ c.held, x.2 ≠ n) (settled : n ∉ c.inTransit) :
    c.reports n = dues settings := by
  have balance := sound.balance n
  have none : c.pending n = 0 := by
    apply Nat.eq_zero_of_not_pos
    intro due
    obtain ⟨k, member⟩ := (pending_pos n c).mp due
    exact settled (List.mem_filterMap.mpr ⟨_, reported_settles n k c.agenda sound.settles member, rfl⟩)
  rw [if_pos (accepted_below settings c sound n m accepted), none, (held_count_zero n c).mpr released,
    reports_dues settings c sound] at balance
  simpa using balance

theorem each_message_reported (settings : LinkSettings) (scripts : List (List LinkCall)) (routing : Routing)
    (turns : List Turn) (kept : ∀ script ∈ scripts, .dropListener ∉ script) (alive : .call .dropListener ∉ turns) :
    ((start settings scripts routing).run turns).ReportsEach settings := by
  generalize reached : (start settings scripts routing).run turns = c
  have sound : c.Sound settings := reached ▸ sound_run settings turns _ alive (sound_start settings scripts routing kept)
  constructor
  case gone => exact gone_reported settings c sound
  case never_more =>
    intro n
    have balance := sound.balance n
    rw [reports_dues settings c sound] at balance
    split at balance <;> omega
  case let_go =>
    intro n k rest due
    have balance := sound.balance n
    have pending : 0 < c.pending n := (pending_pos n c).mpr ⟨k, by simp [due]⟩
    rw [← held_count_zero]
    apply Nat.eq_zero_of_not_pos
    intro held
    have one := Nat.mul_le_mul_left c.rig.link.reports held
    rw [Nat.mul_one] at one
    split at balance <;> omega
  case only_accepted => exact fun n k reported => sound.told n k (.inl reported)
  case apart =>
    rw [sound.numbered]
    exact (List.reverse_perm _).nodup_iff.mpr List.nodup_range
  case numbered => exact sound.known
  case tally =>
    intro top
    have tally := sound.tally
    simpa [held, queued, draining, top, LinkTally.completed] using tally
  case shutdown =>
    intro top n m accepted
    rcases c with ⟨r, agenda⟩
    cases top
    obtain ⟨steps, run⟩ := r.run_course [.call .shutdown]
    have called : (Course.mk r [.call .shutdown]).Sound settings :=
      sound_turn settings (.call .shutdown) ⟨r, []⟩ (by simp) sound
    have after : (Course.mk (r.run [.call .shutdown]) []).Sound settings := by
      rw [← run]
      exact sound_run settings _ _ (by simp [List.mem_replicate]) called
    have empty : (r.run [.call .shutdown]).link.queue.toList = [] := after.shut (shutdown_shuts r)
    apply gone_reported settings _ after n m accepted
    · simp [held, queued, draining, empty]
    · simp [inTransit]

theorem nested_messages_reported :
    (∀ script ∈ [[.uplink (.pump 9), .send ⟨⟨0, 2⟩, ⟨1, [7], .fromHost ⟨1, ⟨2⟩⟩⟩⟩], [.shutdown]],
        LinkCall.dropListener ∉ script) ∧
      .call .dropListener ∉ [Turn.call (.send ⟨⟨0, 1⟩, ⟨1, [5], .fromHost ⟨1, ⟨2⟩⟩⟩⟩), .step,
        .call (.send ⟨⟨1, 1⟩, ⟨1, [6], .fromHost ⟨1, ⟨2⟩⟩⟩⟩), .step, .call (.uplink (.pump 1)), .step, .step, .step, .step] ∧
      ((start { duplicates := true } [[.uplink (.pump 9), .send ⟨⟨0, 2⟩, ⟨1, [7], .fromHost ⟨1, ⟨2⟩⟩⟩⟩], [.shutdown]]
        .delivered).run [.call (.send ⟨⟨0, 1⟩, ⟨1, [5], .fromHost ⟨1, ⟨2⟩⟩⟩⟩), .step,
        .call (.send ⟨⟨1, 1⟩, ⟨1, [6], .fromHost ⟨1, ⟨2⟩⟩⟩⟩), .step, .call (.uplink (.pump 1)), .step, .step, .step,
        .step]).ReportsEach { duplicates := true } :=
  ⟨by simp, by simp, each_message_reported _ _ _ _ (by simp) (by simp)⟩

end Course

end HubRelay
