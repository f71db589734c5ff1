import HubRelay.Proofs.Link.Load
import HubRelay.Proofs.Link.Returns

/-! Two runs on a link that differ in the last answer and in whether a transport thread is there. Neither matters inside
a transmission: the answer of a call is set before it is noted, and a flush leaves what waits to the transmission under
way. -/

set_option autoImplicit false

namespace HubRelay

namespace Uplink

def manned (running : Bool) (u : Uplink) : Uplink := { u with running := running }

variable (b : Bool) (u : Uplink)

theorem manned_record (m : Outgoing) (fails : Bool) : (u.manned b).record m fails = (u.record m fails).manned b := by
  unfold record
  split <;> rfl

theorem manned_send (m : Outgoing) : (u.manned b).send m = ((u.send m).1, (u.send m).2.manned b) := by
  by_cases full : (u.shutDown || u.settings.capacity ≤ u.queue.length) = true
  · rw [send, send, if_pos full]
    exact if_pos full
  · rw [send, send, if_neg full]
    exact if_neg full

theorem manned_take : (u.manned b).take? = u.take?.map fun t => (t.1, t.2.1, t.2.2.manned b) := by
  by_cases paused : u.paused = true
  · rw [take?, take?, if_pos paused]
    exact if_pos paused
  · rw [take?, take?, if_neg paused, Option.map_map]
    exact if_neg paused

end Uplink

namespace Rig

def but (reply : Reply) (running : Bool) (r : Rig) : Rig := { r with reply := reply, link := r.link.manned running }

-- What an answer or a transport thread has no part in.
def bare (r : Rig) : Rig := r.but .done false

end Rig

namespace Frame

def Answers : Frame → Prop
  | .call _ | .pump _ _ | .flushed | .close | .failAll _ _ => True
  | _ => False

def Speaks : Frame → Prop
  | .call _ | .script _ | .report _ _ => True
  | _ => False

def Unmanned : Frame → Prop
  | .call c => c ≠ .uplink .start
  | .script calls => .uplink .start ∉ calls
  | .haul => False
  | _ => True

end Frame

-- An answer is given before one is noted.
def Unread : List Frame → Prop
  | [] => True
  | f :: rest => f ≠ .answer ∧ (f.Answers ∨ Unread rest)

-- The listener has its turn only within a transmission.
def Nested : List Frame → Prop
  | [] => True
  | f :: rest => (f.Speaks → 0 < load rest) ∧ Nested rest

structure Rig.Shielded (agenda : List Frame) (r : Rig) : Prop where
  frames : ∀ f ∈ agenda, f.Unmanned
  scripts : ∀ script ∈ r.scripts, .uplink .start ∉ script
  nested : Nested agenda
  loaded : load agenda ≤ r.link.inTransit

theorem unread_append (frames rest : List Frame) (noted : .answer ∉ frames) (unread : Unread rest) :
    Unread (frames ++ rest) := by
  induction frames with
  | nil => exact unread
  | cons f frames ih =>
      simp only [List.mem_cons, not_or] at noted
      exact ⟨Ne.symm noted.1, .inr (ih noted.2)⟩

theorem nested_append (frames rest : List Frame) (speak : ∀ f ∈ frames, f.Speaks → 0 < load rest)
    (nested : Nested rest) : Nested (frames ++ rest) := by
  induction frames with
  | nil => exact nested
  | cons f frames ih =>
      refine ⟨fun speaks => ?_, ih fun g member => speak g (by simp [member])⟩
      calc 0 < load rest := speak f (by simp) speaks
        _ ≤ load frames + load rest := Nat.le_add_left _ _
        _ = load (frames ++ rest) := (load_append frames rest).symm

namespace Rig

variable {x : Reply} {b : Bool} {r : Rig}

theorem transmit_but (n : Nat) (m : Outgoing) (fails : Bool) :
    (r.but x b).transmit n m fails = ((r.transmit n m fails).1, (r.transmit n m fails).2.but x b) := by
  have reach : (r.but x b).reachable = r.reachable := rfl
  have recorded : (r.but x b).onLink (·.record m fails) = (r.onLink (·.record m fails)).but x b := by
    simp only [onLink, but, Uplink.manned_record]
  unfold transmit
  simp only [reach, recorded]
  split <;> rfl

theorem catch_up_but (same : b = r.link.running ∨ 0 < r.link.inTransit) : (r.but x b).catchUp = r.catchUp := by
  rcases same with rfl | busy
  · rfl
  · rw [r.catch_up_none (.inr busy), catch_up_none (r.but x b) (.inr busy)]

theorem call_but (c : LinkCall) (rest : List Frame)
    (thread : b = r.link.running ∨ c ≠ .uplink .start ∧ 0 < r.link.inTransit) :
    ∃ x' b', (r.but x b).call c = ((r.call c).1, (r.call c).2.but x' b') ∧
      (x' = (r.call c).2.reply ∨ Unread ((r.call c).1 ++ rest)) ∧ (b = r.link.running → b' = (r.call c).2.link.running) := by
  have busy : b = r.link.running ∨ 0 < r.link.inTransit := thread.imp_right And.right
  have catches (f : Frame) (answers : f.Answers) (other : f ≠ .answer) : Unread (r.catchUp ++ [f] ++ rest) := by
    rw [List.append_assoc]
    refine unread_append _ _ (fun member => ?_) ⟨other, .inl answers⟩
    cases catch_up_frames member
  cases c with
  | uplink c =>
      cases c with
      | start =>
          obtain rfl : b = r.link.running := thread.resolve_right fun other => other.1 rfl
          have same : (r.but x r.link.running).link = r.link := rfl
          simp only [call, same]
          split <;> exact ⟨_, _, rfl, .inl rfl, fun _ => rfl⟩
      | pump => exact ⟨x, b, rfl, .inr ⟨by simp, .inl trivial⟩, id⟩
      | pause | resume | spoil | takeReceived => exact ⟨_, b, rfl, .inl rfl, id⟩
  | send m =>
      have sent : (r.but x b).link.send m = _ := r.link.manned_send b m
      have running : (r.link.send m).2.running = r.link.running := by
        unfold Uplink.send
        split <;> rfl
      simp only [call, sent]
      exact ⟨_, b, rfl, .inl rfl, fun same => same.trans running.symm⟩
  | flush =>
      simp only [call, catch_up_but busy]
      exact ⟨x, b, rfl, .inr (catches .flushed trivial (by simp)), id⟩
  | shutdown =>
      have shut : (r.but x b).link.shutDown = r.link.shutDown := rfl
      simp only [call, catch_up_but busy, shut]
      split
      · exact ⟨_, b, rfl, .inl rfl, id⟩
      · exact ⟨x, b, rfl, .inr (catches .close trivial (by simp)), id⟩
  | deliver =>
      have reach : (r.but x b).reachable = r.reachable := rfl
      simp only [call, reach]
      split <;> exact ⟨_, b, rfl, .inl rfl, id⟩
  | bind =>
      have listening : (r.but x b).listening = r.listening := rfl
      simp only [call, listening]
      split <;> exact ⟨_, b, rfl, .inl rfl, id⟩
  | dropListener | malformed => exact ⟨_, b, rfl, .inl rfl, id⟩

def carry? (r : Rig) : Option (List Frame × Rig) :=
  r.link.take?.map fun t => { r with link := t.2.2 }.transmit r.link.oldest t.1 t.2.1

theorem carry_some {t : List Frame × Rig} (carried : r.carry? = some t) :
    ∃ m fails link, r.link.take? = some (m, fails, link) ∧ { r with link := link }.transmit r.link.oldest m fails = t := by
  obtain ⟨⟨m, fails, link⟩, taken, transmitted⟩ := Option.map_eq_some_iff.mp carried
  exact ⟨m, fails, link, taken, transmitted⟩

theorem carry_none (none : r.carry? = none) : r.link.take? = .none := Option.map_eq_none_iff.mp none

theorem pump_none (left sent : Nat) (none : r.carry? = none) :
    r.step (.pump left sent) = ([], { r with reply := .count sent }) := by
  cases left with
  | zero => rfl
  | succ left =>
      simp only [step, carry_none none]
      rfl

theorem pump_some {t : List Frame × Rig} (left sent : Nat) (carried : r.carry? = some t) :
    r.step (.pump (left + 1) sent) = (t.1 ++ [.pump left (sent + 1)], t.2) := by
  obtain ⟨m, fails, link, taken, rfl⟩ := carry_some carried
  simp only [step, taken]

theorem haul_none (none : r.carry? = none) : r.step .haul = ([], r) := by
  simp only [step, carry_none none]
  split <;> rfl

theorem haul_idle (idle : r.link.running = false) : r.step .haul = ([], r) := by
  simp [step, idle]

theorem haul_some {t : List Frame × Rig} (running : r.link.running = true) (carried : r.carry? = some t) :
    r.step .haul = (t.1 ++ [.haul], t.2) := by
  obtain ⟨m, fails, link, taken, rfl⟩ := carry_some carried
  simp only [step, taken, running, if_true]

theorem carry_but : (r.but x b).carry? = r.carry?.map fun t => (t.1, t.2.but x b) := by
  have taken : (r.but x b).link.take? = _ := r.link.manned_take b
  unfold carry?
  rw [taken, Option.map_map, Option.map_map]
  congr 1
  funext t
  exact transmit_but (r := { r with link := t.2.2 }) r.link.oldest t.1 t.2.1

theorem take_running {m : Outgoing} {fails : Bool} {u u' : Uplink} (taken : u.take? = some (m, fails, u')) :
    u'.running = u.running := by
  obtain ⟨queue, -, -, -, rfl⟩ := Uplink.take_eq taken
  rfl

theorem transmit_same (n : Nat) (m : Outgoing) (fails : Bool) (r : Rig) :
    (r.transmit n m fails).2.reply = r.reply ∧ (r.transmit n m fails).2.scripts = r.scripts ∧
      (r.transmit n m fails).2.link.running = r.link.running := by
  have recorded : (r.link.record m fails).running = r.link.running := by
    unfold Uplink.record
    split <;> rfl
  unfold transmit
  split <;> exact ⟨rfl, rfl, recorded⟩

theorem transmit_frames {n : Nat} {m : Outgoing} {fails : Bool} {r : Rig} {f : Frame}
    (member : f ∈ (r.transmit n m fails).1) : f = .report n m.handle ∨ f = .letGo ∨ f = .settle n := by
  unfold transmit at member
  split at member
  · simp only [List.mem_append, List.mem_replicate, List.mem_cons, List.not_mem_nil, or_false] at member
    rcases member with ⟨-, same⟩ | same | same <;> simp [same]
  · exact .inr (.inr (List.mem_singleton.mp member))

theorem transmit_unread (n : Nat) (m : Outgoing) (fails : Bool) (r : Rig) {agenda : List Frame} (unread : Unread agenda) :
    Unread ((r.transmit n m fails).1 ++ agenda) := by
  refine unread_append _ _ (fun member => ?_) unread
  obtain same | same | same := transmit_frames member <;> cases same

theorem transmit_nested (n : Nat) (m : Outgoing) (fails : Bool) (r : Rig) {agenda : List Frame} (nested : Nested agenda) :
    Nested ((r.transmit n m fails).1 ++ agenda) := by
  have settled : Nested (.settle n :: agenda) := ⟨fun speaks => speaks.elim, nested⟩
  unfold transmit
  split
  · rw [List.append_assoc]
    refine nested_append _ _ (fun f member speaks => ?_) ⟨fun speaks => speaks.elim, settled⟩
    simp only [List.cons_append, List.nil_append, load_cons, Frame.load]
    omega
  · exact settled

theorem call_nested (c : LinkCall) (r : Rig) {rest : List Frame} (nested : Nested rest) :
    Nested ((r.call c).1 ++ rest) := by
  apply nested_append _ _ _ nested
  intro f member speaks
  rcases call_frames member with ⟨limit, rfl⟩ | ⟨rfl, -⟩ | rfl | rfl <;> exact speaks.elim

theorem step_nested (f : Frame) (rest : List Frame) (r : Rig) (nested : Nested (f :: rest)) :
    Nested ((r.step f).1 ++ rest) := by
  obtain ⟨within, later⟩ := nested
  have trail (n : Nat) (m : Outgoing) (fails : Bool) (r' : Rig) (g : Frame) (quiet : ¬ g.Speaks) :
      Nested ((r'.transmit n m fails).1 ++ [g] ++ rest) := by
    rw [List.append_assoc]
    exact transmit_nested n m fails r' ⟨fun speaks => absurd speaks quiet, later⟩
  have drawn (draws : r.Draws f) : Nested ((r.step f).1 ++ rest) := by
    cases draws with
    | rests reply stepped =>
        rw [stepped]
        exact later
    | takes m fails link next taken goes stepped =>
        rw [stepped]
        apply trail
        rcases goes with rfl | ⟨left, sent, rfl⟩ <;> exact id
  cases f with
  | call c => exact r.call_nested c later
  | answer | flushed | letGo | settle => exact later
  | script calls =>
      cases calls with
      | nil => exact later
      | cons c calls =>
          have next : 0 < load (.answer :: .script calls :: rest) := by simpa [Frame.load] using within trivial
          exact ⟨fun _ => next, fun speaks => speaks.elim, fun _ => within trivial, later⟩
  | report n k =>
      simp only [step]
      split
      · exact later
      · exact ⟨fun _ => within trivial, later⟩
  | pump left sent => exact drawn (r.pump_draws left sent)
  | haul => exact drawn r.haul_draws
  | close => exact ⟨fun speaks => speaks.elim, later⟩
  | failAll n messages =>
      cases messages with
      | nil => exact later
      | cons m messages => exact trail _ _ _ _ _ id

theorem step_but (f : Frame) (rest : List Frame) (reply : x = r.reply ∨ Unread (f :: rest))
    (thread : b = r.link.running ∨ f.Unmanned ∧ (f.Speaks → 0 < r.link.inTransit)) :
    ∃ x' b', (r.but x b).step f = ((r.step f).1, (r.step f).2.but x' b') ∧
      (x' = (r.step f).2.reply ∨ Unread ((r.step f).1 ++ rest)) ∧ (b = r.link.running → b' = (r.step f).2.link.running) := by
  cases f with
  | call c => exact call_but c rest (thread.imp_right fun other => ⟨other.1, other.2 trivial⟩)
  | answer =>
      obtain rfl : x = r.reply := reply.resolve_right fun unread => unread.1 rfl
      exact ⟨_, b, rfl, .inl rfl, id⟩
  | flushed => exact ⟨_, b, rfl, .inl rfl, id⟩
  | letGo | settle => exact ⟨x, b, rfl, reply.imp_right fun unread => unread.2.resolve_left id, id⟩
  | script calls =>
      cases calls with
      | nil => exact ⟨x, b, rfl, reply.imp_right fun unread => unread.2.resolve_left id, id⟩
      | cons c calls => exact ⟨x, b, rfl, .inr ⟨by simp, .inl trivial⟩, id⟩
  | pump left sent =>
      cases carried : r.carry? with
      | none =>
          rw [pump_none left sent carried, pump_none left sent (by rw [carry_but, carried]; rfl)]
          exact ⟨_, b, rfl, .inl rfl, id⟩
      | some t =>
          cases left with
          | zero => exact ⟨_, b, rfl, .inl rfl, id⟩
          | succ left =>
              have likewise : (r.but x b).carry? = some (t.1, t.2.but x b) := by rw [carry_but, carried]; rfl
              rw [pump_some left sent carried, pump_some left sent likewise]
              obtain ⟨m, fails, link, taken, rfl⟩ := carry_some carried
              have same := transmit_same r.link.oldest m fails { r with link := link }
              refine ⟨x, b, rfl, .inr ?_, fun manned => ?_⟩
              · rw [List.append_assoc]
                exact transmit_unread _ _ _ _ ⟨by simp, .inl trivial⟩
              · exact manned.trans ((take_running taken).symm.trans same.2.2.symm)
  | haul =>
      obtain rfl : b = r.link.running := thread.resolve_right fun other => other.1.elim
      cases manned : r.link.running with
      | false =>
          have likewise : (r.but x false).link.running = false := rfl
          rw [haul_idle manned, haul_idle likewise]
          exact ⟨x, false, rfl, reply.imp_right fun unread => unread.2.resolve_left id, fun _ => manned.symm⟩
      | true =>
          cases carried : r.carry? with
          | none =>
              rw [haul_none carried, haul_none (by rw [carry_but, carried]; rfl)]
              exact ⟨x, true, rfl, reply.imp_right fun unread => unread.2.resolve_left id, fun _ => manned.symm⟩
          | some t =>
              have likewise : (r.but x true).carry? = some (t.1, t.2.but x true) := by rw [carry_but, carried]; rfl
              rw [haul_some manned carried, haul_some rfl likewise]
              obtain ⟨m, fails, link, taken, rfl⟩ := carry_some carried
              have same := transmit_same r.link.oldest m fails { r with link := link }
              refine ⟨x, true, rfl, ?_, fun _ => ?_⟩
              · rw [List.append_assoc]
                rcases reply with kept | unread
                · exact .inl (kept.trans same.1.symm)
                · exact .inr (transmit_unread _ _ _ _ ⟨by simp, unread.2⟩)
              · exact manned.symm.trans ((take_running taken).symm.trans same.2.2.symm)
  | report n k =>
      have scripts : (r.but x b).scripts = r.scripts := rfl
      simp only [step, note, record, scripts]
      split
      · exact ⟨x, b, rfl, reply.imp_right fun unread => unread.2.resolve_left id, id⟩
      · exact ⟨x, b, rfl, reply.imp_right fun unread => ⟨by simp, .inr (unread.2.resolve_left id)⟩, id⟩
  | close => exact ⟨x, false, rfl, .inr ⟨by simp, .inl trivial⟩, fun _ => rfl⟩
  | failAll n messages =>
      cases messages with
      | nil => exact ⟨_, b, rfl, .inl rfl, id⟩
      | cons m messages =>
          have likewise : (r.but x b).transmit n m true = _ := transmit_but n m true
          simp only [step, likewise]
          refine ⟨x, b, rfl, .inr ?_, fun manned => manned.trans (transmit_same n m true r).2.2.symm⟩
          rw [List.append_assoc]
          exact transmit_unread _ _ _ _ ⟨by simp, .inl trivial⟩

theorem call_unmanned (c : LinkCall) (r : Rig) (busy : 0 < r.link.inTransit) : ∀ f ∈ (r.call c).1, f.Unmanned := by
  intro f member
  rcases call_frames member with ⟨limit, rfl⟩ | ⟨-, caught⟩ | rfl | rfl
  · trivial
  · exact absurd (r.catch_up_none (.inr busy)) caught
  · trivial
  · trivial

theorem call_scripts (c : LinkCall) (r : Rig) : (r.call c).2.scripts = r.scripts := by
  cases c with
  | uplink c =>
      cases c with
      | start =>
          simp only [call]
          split <;> rfl
      | pump | pause | resume | spoil | takeReceived => rfl
  | shutdown | deliver | bind => simp only [call]; split <;> rfl
  | send | flush | dropListener | malformed => rfl

theorem transmit_unmanned (n : Nat) (m : Outgoing) (fails : Bool) (r : Rig) :
    ∀ f ∈ (r.transmit n m fails).1, f.Unmanned := by
  intro f member
  obtain rfl | rfl | rfl := transmit_frames member <;> trivial

theorem step_frames (f : Frame) (rest : List Frame) (shielded : r.Shielded (f :: rest)) :
    (∀ g ∈ (r.step f).1, g.Unmanned) ∧ ∀ script ∈ (r.step f).2.scripts, script ∈ r.scripts := by
  have unmanned : f.Unmanned := shielded.frames f (by simp)
  have trail {n m fails} {r' : Rig} (g : Frame) (plain : g.Unmanned) (same : r'.scripts = r.scripts) :
      (∀ h ∈ (r'.transmit n m fails).1 ++ [g], h.Unmanned) ∧
        ∀ script ∈ (r'.transmit n m fails).2.scripts, script ∈ r.scripts := by
    constructor
    · intro h member
      rcases List.mem_append.mp member with ahead | last
      · exact transmit_unmanned n m fails r' h ahead
      · rw [List.mem_singleton.mp last]
        exact plain
    · rw [(transmit_same n m fails r').2.1, same]
      exact fun _ => id
  cases f with
  | call c =>
      have within := shielded.nested.1 trivial
      have loaded := shielded.loaded
      rw [load_cons] at loaded
      exact ⟨call_unmanned c r (by omega), fun script member => call_scripts c r ▸ member⟩
  | answer | flushed | letGo | settle => exact ⟨by simp [step, answer], fun _ => id⟩
  | script calls =>
      cases calls with
      | nil => exact ⟨by simp [step], fun _ => id⟩
      | cons c calls =>
          refine ⟨fun g member => ?_, fun _ => id⟩
          simp only [Frame.Unmanned, List.mem_cons, not_or] at unmanned
          simp only [step, List.mem_cons, List.not_mem_nil, or_false] at member
          rcases member with rfl | rfl | rfl
          · exact Ne.symm unmanned.1
          · trivial
          · exact unmanned.2
  | pump left sent =>
      cases carried : r.carry? with
      | none =>
          rw [pump_none left sent carried]
          exact ⟨by simp, fun _ => id⟩
      | some t =>
          cases left with
          | zero => exact ⟨by simp [step, answer], fun _ => id⟩
          | succ left =>
              rw [pump_some left sent carried]
              obtain ⟨m, fails, link, taken, rfl⟩ := carry_some carried
              exact trail _ trivial rfl
  | haul => exact unmanned.elim
  | report n k =>
      simp only [step, note, record]
      split
      · exact ⟨by simp, fun _ => id⟩
      · next script scripts known =>
          constructor
          · intro g member
            rw [List.mem_singleton.mp member]
            exact shielded.scripts script (by rw [known]; simp)
          · rw [known]
            exact fun _ => List.mem_cons_of_mem _
  | close => exact ⟨by simp [step, Frame.Unmanned], fun _ => id⟩
  | failAll n messages =>
      cases messages with
      | nil => exact ⟨by simp [step, answer], fun _ => id⟩
      | cons m messages => exact trail (.failAll (n + 1) messages) trivial rfl

theorem step_shielded (f : Frame) (rest : List Frame) (shielded : r.Shielded (f :: rest)) :
    (r.step f).2.Shielded ((r.step f).1 ++ rest) := by
  obtain ⟨frames, scripts⟩ := step_frames f rest shielded
  have loaded := shielded.loaded
  rw [load_cons] at loaded
  refine ⟨fun g member => ?_, fun script member => shielded.scripts script (scripts script member),
    r.step_nested f rest shielded.nested, ?_⟩
  · rcases List.mem_append.mp member with ahead | later
    · exact frames g ahead
    · exact shielded.frames g (List.mem_cons_of_mem _ later)
  · have balance := r.step_load f (by omega)
    rw [load_append]
    omega

-- Where nothing but the last answer differs, nothing else will; a transport thread makes a difference to no transmission.
theorem run_but (agenda : List Frame) (r : Rig) (x : Reply) (b : Bool) (reply : x = r.reply ∨ Unread agenda)
    (thread : b = r.link.running ∨ r.Shielded agenda) :
    ∃ x' b', (r.but x b).run agenda = (r.run agenda).but x' b' ∧
      (b = r.link.running → b' = (r.run agenda).link.running) := by
  induction agenda, r using agenda_induction generalizing x b with
  | nil r => exact ⟨x, b, by rw [run_nil, run_nil], by rw [run_nil]; exact id⟩
  | cons f rest r ih =>
      have within (shielded : r.Shielded (f :: rest)) : f.Unmanned ∧ (f.Speaks → 0 < r.link.inTransit) := by
        have loaded := shielded.loaded
        rw [load_cons] at loaded
        exact ⟨shielded.frames f (by simp), fun speaks => by have := shielded.nested.1 speaks; omega⟩
      obtain ⟨x', b', step, reply', thread'⟩ := step_but f rest reply (thread.imp_right within)
      obtain ⟨x'', b'', run, thread''⟩ := ih x' b' reply' (thread.imp thread' (step_shielded f rest))
      refine ⟨x'', b'', ?_, fun manned => ?_⟩
      · rw [run_cons, step, run, run_cons]
      · rw [run_cons]
        exact thread'' (thread' manned)

end Rig
end HubRelay
