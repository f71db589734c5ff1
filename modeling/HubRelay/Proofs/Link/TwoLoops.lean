import HubRelay.Proofs.Link.Finality
import HubRelay.Proofs.Link.Likeness

/-! A link has two loops over its queue: a pump, which stops at a count, and the transport thread, which stops when it is
told to. They do the same to each message, so one can be had from the other, whatever the listener calls meanwhile. -/

set_option autoImplicit false

namespace HubRelay

def Frame.calls : Frame → Nat
  | .call _ => 1
  | .script calls => calls.length
  | _ => 0

namespace Rig

variable {r : Rig}

def offers (agenda : List Frame) (r : Rig) : Nat :=
  r.link.queue.length + total (r.scripts.map List.length) + total (agenda.map Frame.calls)

theorem offers_append (frames rest : List Frame) (r : Rig) :
    r.offers (frames ++ rest) = r.offers frames + total (rest.map Frame.calls) := by
  simp only [offers, List.map_append, total_append]
  omega

theorem transmit_offers (n : Nat) (m : Outgoing) (fails : Bool) (r : Rig) :
    (r.transmit n m fails).2.offers (r.transmit n m fails).1 = r.offers [] := by
  have silent (k : Nat) : total ((List.replicate k (Frame.report n m.handle)).map Frame.calls) = 0 := by
    induction k with
    | zero => rfl
    | succ k ih =>
        rw [List.replicate_succ, List.map_cons, total_cons, ih]
        rfl
  unfold transmit
  split
  · rw [offers, List.map_append, total_append, silent]
    simp [offers, onLink, Frame.calls]
  · simp [offers, onLink, Frame.calls]

theorem carry_offers {t : List Frame × Rig} (carried : r.carry? = some t) : t.2.offers t.1 + 1 = r.offers [] := by
  obtain ⟨m, fails, link, taken, rfl⟩ := carry_some carried
  have shorter := Uplink.take_length taken
  rw [transmit_offers]
  simp only [offers]
  omega

theorem call_offers (c : LinkCall) (r : Rig) : (r.call c).2.offers (r.call c).1 ≤ r.offers [.call c] := by
  have silent : total (r.catchUp.map Frame.calls) = 0 := by
    unfold catchUp
    split <;> rfl
  cases c with
  | uplink c =>
      cases c with
      | start =>
          simp only [call]
          split
          · next link started =>
              obtain rfl := Uplink.start_ok started
              simp [answer, offers]
          · simp [answer, offers]
      | pump | pause | resume | spoil | takeReceived =>
          simp [call, answer, onLink, offers, Uplink.pause, Uplink.resume, Uplink.failNext, Uplink.takeReceived, Frame.calls]
  | send m =>
      simp only [call, answer, record, offers, Uplink.send]
      split
      · simp
      · simp [Fifo.push, Fifo.length, Frame.calls]
        omega
  | flush => simp [call, offers, silent, Frame.calls]
  | shutdown =>
      simp only [call]
      split
      · simp [answer, offers]
      · simp [offers, silent, Frame.calls]
  | deliver => simp only [call]; split <;> simp [answer, note, offers]
  | bind => simp only [call]; split <;> simp [answer, offers]
  | dropListener | malformed => simp [call, answer, offers]

theorem step_offers (f : Frame) (r : Rig) : (r.step f).2.offers (r.step f).1 ≤ r.offers [f] := by
  have carries {t : List Frame × Rig} {f g : Frame} (silent : g.calls = 0) (carried : r.carry? = some t) :
      t.2.offers (t.1 ++ [g]) ≤ r.offers [f] := by
    have fewer := carry_offers carried
    have more := offers_append [] [f] r
    rw [offers_append, List.map_singleton, silent]
    rw [List.nil_append] at more
    simp only [total_cons, total_nil]
    omega
  cases f with
  | call c => exact r.call_offers c
  | answer | letGo | settle => simp [step, offers, note, onLink, Uplink.settle, Frame.calls]
  | flushed => simp [step, answer, offers, Frame.calls]
  | script calls =>
      cases calls with
      | nil => simp [step, offers, Frame.calls]
      | cons c calls =>
          simp [step, offers, Frame.calls]
          omega
  | pump left sent =>
      cases carried : r.carry? with
      | none =>
          rw [pump_none left sent carried]
          simp [offers]
      | some t =>
          cases left with
          | zero => simp [step, answer, offers]
          | succ left =>
              rw [pump_some left sent carried]
              exact carries rfl carried
  | haul =>
      cases carried : r.carry? with
      | none =>
          rw [haul_none carried]
          simp [offers]
      | some t =>
          cases running : r.link.running with
          | false =>
              rw [haul_idle running]
              simp [offers]
          | true =>
              rw [haul_some running carried]
              exact carries rfl carried
  | report n k =>
      simp only [step, note, record]
      split
      · simp [offers]
      · next known =>
          simp [offers, known, Frame.calls]
          omega
  | close => simp [step, offers, Uplink.takeAll, Uplink.close, Fifo.empty, Fifo.length, Frame.calls]
  | failAll n messages =>
      cases messages with
      | nil => simp [step, answer, offers]
      | cons m messages =>
          simp only [step]
          rw [offers_append, transmit_offers]
          simp [offers, Frame.calls]

theorem run_offers (agenda : List Frame) (r : Rig) : (r.run agenda).offers [] ≤ r.offers agenda := by
  induction agenda, r using agenda_induction with
  | nil r => exact Nat.le_of_eq (by rw [run_nil])
  | cons f rest r ih =>
      rw [run_cons]
      have step := r.step_offers f
      have split := offers_append [f] rest r
      rw [offers_append] at ih
      rw [List.singleton_append] at split
      omega

theorem run_carried {t : List Frame × Rig} {f g : Frame} (step : r.step f = (t.1 ++ [g], t.2)) :
    r.run [f] = (t.2.run t.1).run [g] := by
  rw [run_cons, step, List.append_nil, run_append]

theorem run_ended {r' : Rig} {f : Frame} (step : r.step f = ([], r')) : r.run [f] = r' := by
  rw [run_cons, step, List.append_nil, run_nil]

theorem carry_unread {t : List Frame × Rig} (carried : r.carry? = some t) : Unread t.1 := by
  obtain ⟨m, fails, link, taken, rfl⟩ := carry_some carried
  have unread := @transmit_unread r.link.oldest m fails { r with link := link } [] trivial
  rwa [List.append_nil] at unread

theorem carry_running {t : List Frame × Rig} (carried : r.carry? = some t) : t.2.link.running = r.link.running := by
  obtain ⟨m, fails, link, taken, rfl⟩ := carry_some carried
  exact (transmit_same r.link.oldest m fails { r with link := link }).2.2.trans (take_running taken)

def said (x : Reply) (r : Rig) : Rig := { r with reply := x }

theorem carry_said {t : List Frame × Rig} (x : Reply) (carried : r.carry? = some t) :
    (r.said x).carry? = some (t.1, t.2.said x) := by
  have but : (r.said x).carry? = r.carry?.map fun t => (t.1, t.2.but x r.link.running) := carry_but
  rw [carried] at but
  rw [but, ← carry_running carried]
  rfl

theorem carry_said_none (x : Reply) (none : r.carry? = none) : (r.said x).carry? = .none := by
  have but : (r.said x).carry? = r.carry?.map fun t => (t.1, t.2.but x r.link.running) := carry_but
  rwa [none] at but

theorem run_said {agenda : List Frame} (x : Reply) (r : Rig) (unread : Unread agenda) :
    ∃ y, (r.said x).run agenda = (r.run agenda).said y := by
  obtain ⟨y, b, run, thread⟩ := run_but agenda r x r.link.running (.inr unread) (.inl rfl)
  rw [thread rfl] at run
  exact ⟨y, run⟩

theorem pump_counts (limit sent : Nat) (r : Rig) : ∃ n, (r.run [.pump limit sent]).reply = .count (sent + n) ∧
    ∀ x sent', (r.said x).run [.pump limit sent'] = (r.run [.pump limit sent]).said (.count (sent' + n)) := by
  induction limit generalizing r sent with
  | zero =>
      have ended (s : Nat) (r : Rig) : r.run [.pump 0 s] = r.said (.count s) := run_ended rfl
      exact ⟨0, by rw [ended]; rfl, fun x sent' => by rw [ended, ended]; rfl⟩
  | succ limit ih =>
      cases carried : r.carry? with
      | none =>
          refine ⟨0, by rw [run_ended (pump_none _ _ carried), Nat.add_zero], fun x sent' => ?_⟩
          rw [run_ended (pump_none _ _ carried), run_ended (pump_none _ _ (carry_said_none x carried))]
          rfl
      | some t =>
          obtain ⟨n, counted, same⟩ := ih (sent + 1) (t.2.run t.1)
          have further (s : Nat) : s + 1 + n = s + (n + 1) := by omega
          refine ⟨n + 1, ?_, fun x sent' => ?_⟩
          · rw [run_carried (pump_some limit sent carried), counted, further]
          · obtain ⟨y, run⟩ := run_said x t.2 (carry_unread carried)
            rw [run_carried (pump_some limit sent carried), run_carried (pump_some limit sent' (carry_said x carried)), run,
              same, further]

theorem pump_split (m n sent : Nat) (r : Rig) : ∃ a b, (r.run [.pump m sent]).reply = .count (sent + a) ∧
    ((r.run [.pump m sent]).run [.pump n 0]).reply = .count b ∧
    r.run [.pump (m + n) sent] = ((r.run [.pump m sent]).run [.pump n 0]).said (.count (sent + a + b)) := by
  induction m generalizing r sent with
  | zero =>
      have ended : r.run [.pump 0 sent] = r.said (.count sent) := run_ended rfl
      obtain ⟨b, counted, same⟩ := pump_counts n sent r
      refine ⟨0, b, by rw [ended]; rfl, ?_, ?_⟩
      · rw [ended, same, Nat.zero_add]
        rfl
      · rw [ended, same, Nat.zero_add, Nat.add_zero, ← counted]
        rfl
  | succ m ih =>
      cases carried : r.carry? with
      | none =>
          have ended (limit : Nat) : r.run [.pump limit sent] = r.said (.count sent) := run_ended (pump_none _ _ carried)
          rw [ended, ended, run_ended (pump_none n 0 (carry_said_none _ carried))]
          exact ⟨0, 0, rfl, rfl, rfl⟩
      | some t =>
          obtain ⟨a, b, first, second, whole⟩ := ih (sent + 1) (t.2.run t.1)
          have further : sent + 1 + a = sent + (a + 1) := by omega
          rw [run_carried (pump_some m sent carried), show m + 1 + n = m + n + 1 by omega,
            run_carried (pump_some (m + n) sent carried)]
          exact ⟨a + 1, b, by rw [first, further], second, by rw [whole, further]⟩

/-- The link has a transport thread unless it was shut down, and no call of its listener will start another. -/
structure Staffed (r : Rig) : Prop where
  whole : r.Whole
  thread : r.link.running = true ∨ r.link.shutDown = true
  scripts : ∀ script ∈ r.scripts, .uplink .start ∉ script

theorem step_thread (f : Frame) (r : Rig) (thread : r.link.running = true ∨ r.link.shutDown = true) :
    (r.step f).2.link.running = true ∨ (r.step f).2.link.shutDown = true := by
  by_cases closes : f = .close
  · subst closes
    exact .inr rfl
  · have carries := r.step_carries f closes
    exact thread.imp carries.running fun shut => carries.shut.trans shut

theorem run_staffed {agenda : List Frame} (staffed : r.Staffed) (shielded : r.Shielded agenda) : (r.run agenda).Staffed := by
  induction agenda, r using agenda_induction with
  | nil r => rwa [run_nil]
  | cons f rest r ih =>
      have after := step_shielded f rest shielded
      rw [run_cons]
      exact ih ⟨r.step_whole f staffed.whole, step_thread f r staffed.thread, after.scripts⟩ after

theorem carry_shielded {t : List Frame × Rig} (carried : r.carry? = some t)
    (scripts : ∀ script ∈ r.scripts, .uplink .start ∉ script) : t.2.Shielded t.1 := by
  obtain ⟨m, fails, link, taken, rfl⟩ := carry_some carried
  have same := transmit_same r.link.oldest m fails { r with link := link }
  have nested := @transmit_nested r.link.oldest m fails { r with link := link } [] trivial
  rw [List.append_nil] at nested
  refine ⟨transmit_unmanned _ _ _ _, ?_, nested, ?_⟩
  · rw [same.2.1]
    exact scripts
  · rw [transmit_load, transmit_in_transit, (Uplink.take_some taken).2.2.2.2]
    omega

theorem staffed_running {t : List Frame × Rig} (staffed : r.Staffed) (carried : r.carry? = some t) :
    r.link.running = true := by
  refine staffed.thread.resolve_right fun shut => ?_
  rcases staffed.whole with opened | closed
  · exact absurd (shut.symm.trans opened.2) (by decide)
  · obtain ⟨m, fails, link, taken, -⟩ := carry_some carried
    cases closed.take.symm.trans taken

theorem haul_pump (r : Rig) (staffed : r.Staffed) : ∃ n, n ≤ r.offers [] ∧ ∀ x b sent limit, n ≤ limit →
    ∃ b', (r.but x b).run [.pump limit sent] = (r.run [.haul]).but (.count (sent + n)) b' := by
  generalize most : r.offers [] = offered
  induction offered using Nat.strongRecOn generalizing r with
  | _ offered ih =>
      subst most
      cases carried : r.carry? with
      | none =>
          refine ⟨0, Nat.zero_le _, fun x b sent limit _ => ⟨b, ?_⟩⟩
          have likewise : (r.but x b).carry? = none := by rw [carry_but, carried]; rfl
          rw [run_ended (haul_none carried), run_ended (pump_none limit sent likewise)]
          rfl
      | some t =>
          have running := staffed_running staffed carried
          have step := haul_some running carried
          have shielded := carry_shielded carried staffed.scripts
          have next : t.2.Staffed := by
            have whole := r.step_whole .haul staffed.whole
            rw [step] at whole
            exact ⟨whole, .inl ((carry_running carried).trans running), shielded.scripts⟩
          have fewer : (t.2.run t.1).offers [] < r.offers [] := by
            have taken := carry_offers carried
            have rest := t.2.run_offers t.1
            omega
          obtain ⟨n, bound, same⟩ := ih _ fewer (t.2.run t.1) (run_staffed next shielded) rfl
          refine ⟨n + 1, by omega, fun x b sent limit enough => ?_⟩
          obtain ⟨limit, rfl⟩ : ∃ less, limit = less + 1 := ⟨limit - 1, by omega⟩
          have likewise : (r.but x b).carry? = some (t.1, t.2.but x b) := by rw [carry_but, carried]; rfl
          obtain ⟨x', b', run, -⟩ := run_but t.1 t.2 x b (.inr (carry_unread carried)) (.inr shielded)
          obtain ⟨b'', pumped⟩ := same x' b' (sent + 1) limit (by omega)
          refine ⟨b'', ?_⟩
          rw [run_carried (pump_some limit sent likewise), run, pumped, run_carried step]
          congr 2
          omega

structure LoopsAgree (r : Rig) : Prop where
  -- What two pumps do one after the other, one pump does that may take as many messages as both.
  split : ∀ m n, ∃ a b, (r.run [.call (.uplink (.pump m))]).reply = .count a ∧
    ((r.run [.call (.uplink (.pump m))]).run [.call (.uplink (.pump n))]).reply = .count b ∧
    r.run [.call (.uplink (.pump (m + n)))] =
      ((r.run [.call (.uplink (.pump m))]).run [.call (.uplink (.pump n))]).said (.count (a + b))
  -- What the transport thread of a link that was not shut down does until it finds nothing to take or is told to stop,
  -- any pump does that may take all there can be to take, whether or not there is a thread beside it: but for the last
  -- answer and the thread nothing differs, neither in the link and its log nor in what was noted and recorded on the way.
  haul : (∀ script ∈ r.scripts, .uplink .start ∉ script) → ∃ n, n ≤ r.offers [] ∧ ∀ thread limit, n ≤ limit →
    (Rig.run [.call (.uplink (.pump limit))] { r with link := r.link.manned thread }).reply = .count n ∧
    (Rig.run [.call (.uplink (.pump limit))] { r with link := r.link.manned thread }).bare =
      (Rig.run [.haul] { r with link := r.link.manned (!r.link.shutDown) }).bare

theorem pump_call (limit : Nat) (r : Rig) : r.run [.call (.uplink (.pump limit))] = r.run [.pump limit 0] := by
  rw [run_cons]
  rfl

theorem whole_agrees (r : Rig) (whole : r.Whole) : r.LoopsAgree := by
  constructor
  case split =>
    intro m n
    obtain ⟨a, b, first, second, same⟩ := pump_split m n 0 r
    rw [Nat.zero_add] at first same
    simp only [pump_call]
    exact ⟨a, b, first, second, same⟩
  case haul =>
    intro scripts
    have staffed : Staffed { r with link := r.link.manned (!r.link.shutDown) } := by
      refine ⟨?_, ?_, scripts⟩
      · rcases whole with opened | closed
        · exact .inl opened
        · exact .inr ⟨closed.exiting, closed.shut, by simp [Uplink.manned, closed.shut], closed.empty⟩
      · cases shut : r.link.shutDown with
        | false => exact .inl rfl
        | true => exact .inr shut
    obtain ⟨n, bound, same⟩ := haul_pump _ staffed
    refine ⟨n, bound, fun thread limit enough => ?_⟩
    obtain ⟨b, pumped⟩ := same r.reply thread 0 limit enough
    have start : Rig.but r.reply thread { r with link := r.link.manned (!r.link.shutDown) } =
        { r with link := r.link.manned thread } := rfl
    rw [start, Nat.zero_add] at pumped
    rw [pump_call, pumped]
    exact ⟨rfl, rfl⟩

end Rig

namespace Course

theorem two_loops_agree (settings : LinkSettings) (scripts : List (List LinkCall)) (routing : Routing) (turns : List Turn) :
    ((start settings scripts routing).run turns).rig.LoopsAgree :=
  Rig.whole_agrees _ (start_whole settings scripts routing turns)

def queueing : List Turn :=
  [.call (.send (numbered 0)), .step, .call (.send (numbered 1)), .step, .call (.send (numbered 2)), .step]

def nesting : List (List LinkCall) :=
  [[.uplink .pause, .send (numbered 3), .uplink .resume, .uplink (.spoil 1)], [.flush, .uplink (.pump 1)]]

theorem nested_loops_agree :
    let r := ((start {} nesting .delivered).run queueing).rig
    let pumped := (r.run [.call (.uplink (.pump 1))]).run [.call (.uplink (.pump 2))]
    r.link.queue.length = 3 ∧ (∀ script ∈ r.scripts, .uplink .start ∉ script) ∧ pumped.link.queue.length = 0 ∧
      r.run [.call (.uplink (.pump 3))] = pumped.said (.count 3) ∧
      ∃ n, n ≤ 9 ∧ ∀ limit, n ≤ limit →
        (r.run [.call (.uplink (.pump limit))]).bare = (Rig.run [.haul] { r with link := r.link.manned true }).bare := by
  have agree := two_loops_agree {} nesting .delivered queueing
  have unstarted : ∀ script ∈ ((start {} nesting .delivered).run queueing).rig.scripts, .uplink .start ∉ script := by
    change ∀ script ∈ nesting, LinkCall.uplink .start ∉ script
    simp [nesting]
  obtain ⟨a, b, first, second, whole⟩ := agree.split 1 2
  obtain ⟨n, bound, same⟩ := agree.haul unstarted
  have one : Reply.count a = .count 1 := first.symm.trans (by rfl)
  have two : Reply.count b = .count 2 := second.symm.trans (by rfl)
  cases one
  cases two
  exact ⟨by rfl, unstarted, by rfl, whole, n, bound, fun limit enough => (same false limit enough).2⟩

end Course

end HubRelay
