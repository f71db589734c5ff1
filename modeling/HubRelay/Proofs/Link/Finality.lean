import HubRelay.Proofs.Link.Returns
import HubRelay.Proofs.Link.Shutdown

/-! A link that was shut down stays shut down. From the moment its host is told that it exits nothing is accepted and
nothing is transmitted, neither by a later call nor by the pump or the transport thread that is still under way. -/

set_option autoImplicit false

namespace HubRelay

namespace Uplink

variable {u u' u'' : Uplink}

def Open (u : Uplink) : Prop := u.exiting = false ∧ u.shutDown = false

structure Sealed (u : Uplink) : Prop where
  exiting : u.exiting = true
  shut : u.shutDown = true
  stopped : u.running = false
  empty : u.queue.toList = []

structure Stills (u u' : Uplink) : Prop where
  remains : u'.Sealed
  received : u'.received = u.received ∨ u'.received = []
  transmitted : u'.tally.transmitted = u.tally.transmitted
  accepted : u'.tally.accepted = u.tally.accepted

theorem Sealed.stills (closed : u.Sealed) : u.Stills u := ⟨closed, .inl rfl, rfl, rfl⟩

theorem Stills.trans (first : u.Stills u') (second : u'.Stills u'') : u.Stills u'' := by
  refine ⟨second.remains, ?_, second.transmitted.trans first.transmitted, second.accepted.trans first.accepted⟩
  rcases second.received with same | gone
  · rw [same]
    exact first.received
  · exact .inr gone

theorem Sealed.take (closed : u.Sealed) : u.take? = none := by
  unfold take?
  split
  · rfl
  · rw [Fifo.pop?_eq_none.mpr closed.empty]
    rfl

theorem Sealed.send (closed : u.Sealed) (m : Outgoing) :
    u.send m = (false, { u with tally := { u.tally with rejected := u.tally.rejected + 1 } }) := by
  rw [Uplink.send, closed.shut]
  rfl

theorem Sealed.start (closed : u.Sealed) : u.start = .error .shutDown := by
  rw [Uplink.start, closed.stopped, closed.shut]
  rfl

theorem Sealed.fail (closed : u.Sealed) (m : Outgoing) : u.Stills (u.record m true) := by
  unfold record
  split
  · simp_all
  · exact ⟨⟨closed.exiting, closed.shut, closed.stopped, closed.empty⟩, .inl rfl, rfl, rfl⟩

theorem close_sealed (u : Uplink) : u.close.takeAll.2.Sealed := ⟨rfl, rfl, rfl, rfl⟩

theorem Sealed.close (closed : u.Sealed) : u.close.takeAll = ([], u) := by
  obtain ⟨settings, ⟨front, back⟩, inTransit, paused, failBudget, shut, exiting, running, received, tally⟩ := u
  obtain ⟨exiting, shut, stopped, empty⟩ := closed
  obtain ⟨rfl, rfl⟩ : front = [] ∧ back = [] := by simpa [Fifo.toList] using empty
  subst exiting shut stopped
  rfl

structure Carries (u u' : Uplink) : Prop where
  exiting : u'.exiting = u.exiting
  shut : u'.shutDown = u.shutDown
  running : u.running = true → u'.running = true

theorem Carries.trans (first : u.Carries u') (second : u'.Carries u'') : u.Carries u'' :=
  ⟨second.exiting.trans first.exiting, second.shut.trans first.shut, fun running => second.running (first.running running)⟩

theorem record_carries (m : Outgoing) (fails : Bool) (u : Uplink) : u.Carries (u.record m fails) := by
  unfold record
  split <;> exact ⟨rfl, rfl, id⟩

theorem take_carries {m : Outgoing} {fails : Bool} (taken : u.take? = some (m, fails, u')) : u.Carries u' := by
  obtain ⟨queue, -, -, -, rfl⟩ := take_eq taken
  exact ⟨rfl, rfl, id⟩

theorem start_carries (started : u.start = .ok u') : u.Carries u' := by
  obtain rfl := start_ok started
  exact ⟨rfl, rfl, fun _ => rfl⟩

end Uplink

namespace Rig

variable {r r' r'' : Rig}

structure Stills (r r' : Rig) : Prop where
  link : r.link.Stills r'.link
  accepted : ∀ n m, .accepted n m ∈ r'.history → .accepted n m ∈ r.history

theorem Stills.trans (first : r.Stills r') (second : r'.Stills r'') : r.Stills r'' :=
  ⟨first.link.trans second.link, fun n m known => first.accepted n m (second.accepted n m known)⟩

theorem stills_of_link (closed : r.link.Stills r'.link) (history : r'.history = r.history) : r.Stills r' :=
  ⟨closed, fun _ _ known => history ▸ known⟩

theorem transmit_stills (n : Nat) (m : Outgoing) (r : Rig) (closed : r.link.Sealed) :
    r.Stills (r.transmit n m true).2 := by
  unfold transmit
  split <;> exact stills_of_link (closed.fail m) rfl

theorem send_sealed (m : Outgoing) (r : Rig) (closed : r.link.Sealed) :
    r.call (.send m) = ([], { r with
      link := { r.link with tally := { r.link.tally with rejected := r.link.tally.rejected + 1 } }
      history := .refused m :: r.history, reply := .flag false }) := by
  simp only [call, closed.send]
  rfl

theorem start_sealed (r : Rig) (closed : r.link.Sealed) :
    r.call (.uplink .start) = ([], { r with reply := .started (.error .shutDown) }) := by
  simp only [call, closed.start]
  rfl

theorem shutdown_sealed (r : Rig) (closed : r.link.Sealed) :
    r.call .shutdown = ([], { r with reply := .done }) := by
  simp only [call, closed.shut]
  rfl

theorem pump_sealed (left sent : Nat) (r : Rig) (closed : r.link.Sealed) :
    r.step (.pump left sent) = ([], { r with reply := .count sent }) := by
  cases left with
  | zero => rfl
  | succ left =>
      simp only [step, closed.take]
      rfl

theorem haul_sealed (r : Rig) (closed : r.link.Sealed) : r.step .haul = ([], r) := by
  simp only [step, closed.stopped]
  rfl

theorem close_sealed (r : Rig) (closed : r.link.Sealed) : r.step .close = ([.failAll r.link.oldest []], r) := by
  simp only [step, closed.close]

theorem call_stills (c : LinkCall) (r : Rig) (closed : r.link.Sealed) : r.Stills (r.call c).2 := by
  have still : r.Stills r := stills_of_link closed.stills rfl
  have remains := closed
  obtain ⟨exiting, shut, stopped, empty⟩ := closed
  cases c with
  | uplink c =>
      cases c with
      | start =>
          rw [start_sealed r remains]
          exact stills_of_link remains.stills rfl
      | pump => exact still
      | pause | resume | spoil => exact stills_of_link ⟨⟨exiting, shut, stopped, empty⟩, .inl rfl, rfl, rfl⟩ rfl
      | takeReceived => exact stills_of_link ⟨⟨exiting, shut, stopped, empty⟩, .inr rfl, rfl, rfl⟩ rfl
  | send m =>
      rw [send_sealed m r remains]
      exact ⟨⟨⟨exiting, shut, stopped, empty⟩, .inl rfl, rfl, rfl⟩, fun n m' known => by simpa using known⟩
  | flush => exact still
  | shutdown =>
      rw [shutdown_sealed r remains]
      exact stills_of_link remains.stills rfl
  | deliver => simp only [call]; split <;> exact stills_of_link remains.stills rfl
  | bind => simp only [call]; split <;> exact stills_of_link remains.stills rfl
  | dropListener | malformed => exact stills_of_link remains.stills rfl

theorem step_stills (f : Frame) (r : Rig) (closed : r.link.Sealed) : r.Stills (r.step f).2 := by
  cases f with
  | call c => exact call_stills c r closed
  | answer | letGo | flushed => exact stills_of_link closed.stills rfl
  | script calls => cases calls <;> exact stills_of_link closed.stills rfl
  | pump left sent =>
      rw [pump_sealed left sent r closed]
      exact stills_of_link closed.stills rfl
  | haul =>
      rw [haul_sealed r closed]
      exact stills_of_link closed.stills rfl
  | report n k =>
      simp only [step]
      split <;> exact ⟨closed.stills, fun n' m known => by simpa [record, note] using known⟩
  | settle =>
      exact stills_of_link ⟨⟨closed.exiting, closed.shut, closed.stopped, closed.empty⟩, .inl rfl, rfl, rfl⟩ rfl
  | close =>
      rw [close_sealed r closed]
      exact stills_of_link closed.stills rfl
  | failAll n messages =>
      cases messages with
      | nil => exact stills_of_link closed.stills rfl
      | cons m rest => exact transmit_stills n m r closed

theorem transmit_carries (n : Nat) (m : Outgoing) (fails : Bool) (r : Rig) :
    r.link.Carries (r.transmit n m fails).2.link := by
  rw [transmit_link]
  exact Uplink.record_carries m fails r.link

theorem call_carries (c : LinkCall) (r : Rig) : r.link.Carries (r.call c).2.link := by
  have same : r.link.Carries r.link := ⟨rfl, rfl, id⟩
  cases c with
  | uplink c =>
      cases c with
      | start =>
          simp only [call]
          split
          · next started => exact Uplink.start_carries started
          · exact same
      | pump => exact same
      | pause | resume | spoil | takeReceived => exact ⟨rfl, rfl, id⟩
  | send m =>
      simp only [call, answer, Uplink.send]
      split <;> exact ⟨rfl, rfl, id⟩
  | shutdown | deliver | bind => simp only [call]; split <;> exact same
  | flush | dropListener | malformed => exact same

theorem draws_carries {f : Frame} (draws : r.Draws f) : r.link.Carries (r.step f).2.link := by
  cases draws with
  | rests reply stepped =>
      rw [stepped]
      exact ⟨rfl, rfl, id⟩
  | takes m fails link next taken goes stepped =>
      rw [stepped]
      exact (Uplink.take_carries taken).trans (transmit_carries r.link.oldest m fails { r with link := link })

theorem step_carries (f : Frame) (r : Rig) (other : f ≠ .close) : r.link.Carries (r.step f).2.link := by
  have same : r.link.Carries r.link := ⟨rfl, rfl, id⟩
  cases f with
  | call c => exact call_carries c r
  | answer | flushed | letGo => exact same
  | settle => exact ⟨rfl, rfl, id⟩
  | script calls => cases calls <;> exact same
  | pump left sent => exact draws_carries (r.pump_draws left sent)
  | haul => exact draws_carries r.haul_draws
  | report =>
      simp only [step]
      split <;> exact same
  | close => exact absurd rfl other
  | failAll n messages =>
      cases messages with
      | nil => exact same
      | cons m rest => exact transmit_carries n m true r

def Whole (r : Rig) : Prop := r.link.Open ∨ r.link.Sealed

theorem step_whole (f : Frame) (r : Rig) (whole : r.Whole) : (r.step f).2.Whole := by
  rcases whole with opened | closed
  · by_cases closes : f = .close
    · subst closes
      exact .inr r.link.close_sealed
    · obtain ⟨exiting, shut, -⟩ := r.step_carries f closes
      exact .inl ⟨exiting.trans opened.1, shut.trans opened.2⟩
  · exact .inr (r.step_stills f closed).link.remains

end Rig

namespace Course

variable {c : Course}

theorem run_stills (turns : List Turn) (c : Course) (closed : c.rig.link.Sealed) :
    c.rig.Stills (c.run turns).rig := by
  apply run_invariant (fun d => c.rig.Stills d.rig) (fun _ => True)
  · rintro t ⟨r, agenda⟩ - stills
    cases agenda with
    | nil => cases t <;> exact stills
    | cons f rest =>
        cases t with
        | step => exact stills.trans (r.step_stills f stills.link.remains)
        | call | haul => exact stills
  · exact fun _ _ => trivial
  · exact ⟨closed.stills, fun _ _ known => known⟩

theorem run_whole (turns : List Turn) (c : Course) (whole : c.rig.Whole) : (c.run turns).rig.Whole := by
  apply run_invariant (fun d => d.rig.Whole) (fun _ => True)
  · rintro t ⟨r, agenda⟩ - whole
    cases agenda with
    | nil => cases t <;> exact whole
    | cons f rest =>
        cases t with
        | step => exact r.step_whole f whole
        | call | haul => exact whole
  · exact fun _ _ => trivial
  · exact whole

theorem start_whole (settings : LinkSettings) (scripts : List (List LinkCall)) (routing : Routing) (turns : List Turn) :
    ((start settings scripts routing).run turns).rig.Whole :=
  run_whole turns _ (.inl ⟨rfl, rfl⟩)

/-- How things stand once the host was told: `c` is a state in which it had been, and `later` comes after it. -/
structure Final (c later : Course) : Prop where
  stills : c.rig.Stills later.rig
  send : ∀ m rest, later.agenda = .call (.send m) :: rest → later.turn .step =
    ⟨{ later.rig with
      link := { later.rig.link with
        tally := { later.rig.link.tally with rejected := later.rig.link.tally.rejected + 1 } }
      history := .refused m :: later.rig.history, reply := .flag false }, rest⟩
  pump : ∀ limit rest, later.agenda = .call (.uplink (.pump limit)) :: rest →
    later.Returns 2 { later.rig with reply := .count 0 } rest
  start : ∀ rest, later.agenda = .call (.uplink .start) :: rest → later.turn .step =
    ⟨{ later.rig with reply := .started (.error .shutDown) }, rest⟩
  shutdown : ∀ rest, later.agenda = .call .shutdown :: rest → later.turn .step =
    ⟨{ later.rig with reply := .done }, rest⟩
  pumping : ∀ left sent rest, later.agenda = .pump left sent :: rest → later.turn .step =
    ⟨{ later.rig with reply := .count sent }, rest⟩
  hauling : ∀ rest, later.agenda = .haul :: rest → later.turn .step = ⟨later.rig, rest⟩
  closing : ∀ rest, later.agenda = .close :: rest → later.Returns 2 { later.rig with reply := .done } rest

theorem final_of_stills {later : Course} (stills : c.rig.Stills later.rig) : c.Final later := by
  obtain ⟨r, agenda⟩ := later
  have closed : r.link.Sealed := stills.link.remains
  constructor
  case stills => exact stills
  case send =>
    rintro m rest rfl
    rw [step_cons, show r.step (.call (.send m)) = r.call (.send m) from rfl, Rig.send_sealed m r closed]
    rfl
  case pump =>
    rintro limit rest rfl
    exact returns_of_two rfl (Rig.pump_sealed limit 0 r closed)
  case start =>
    rintro rest rfl
    rw [step_cons, show r.step (.call (.uplink .start)) = r.call (.uplink .start) from rfl, Rig.start_sealed r closed]
    rfl
  case shutdown =>
    rintro rest rfl
    rw [step_cons, show r.step (.call .shutdown) = r.call .shutdown from rfl, Rig.shutdown_sealed r closed]
    rfl
  case pumping =>
    rintro left sent rest rfl
    rw [step_cons, Rig.pump_sealed left sent r closed]
    rfl
  case hauling =>
    rintro rest rfl
    rw [step_cons, Rig.haul_sealed r closed]
    rfl
  case closing =>
    rintro rest rfl
    exact returns_of_two (Rig.close_sealed r closed) rfl

/-- Shutdown is final: a call of it, at the top or inside a completion, returns from a link that is sealed, and what
follows the moment in which the host was told is `Final`. -/
structure ShutsForGood (c : Course) : Prop where
  returns : ∀ rest, c.agenda = .call .shutdown :: rest →
    ∃ n r, c.Returns n r rest ∧ r.link.Sealed
  forever : c.rig.link.exiting = true ∨ c.rig.link.shutDown = true → ∀ turns, c.Final (c.run turns)

theorem shutdown_is_final (settings : LinkSettings) (scripts : List (List LinkCall)) (routing : Routing)
    (turns : List Turn) : ((start settings scripts routing).run turns).ShutsForGood := by
  have whole := start_whole settings scripts routing turns
  generalize (start settings scripts routing).run turns = c at whole
  constructor
  case returns =>
    obtain ⟨r, agenda⟩ := c
    rintro rest rfl
    obtain ⟨n, returned⟩ := returns [.call .shutdown] rest r
    have after := run_whole (List.replicate n .step) ⟨r, [.call .shutdown] ++ rest⟩ whole
    rw [← steps, returned.returned] at after
    refine ⟨n, _, returned, after.resolve_left fun opened => ?_⟩
    exact absurd ((shutdown_shuts r).symm.trans opened.2) (by decide)
  case forever =>
    rintro told more
    have closed : c.rig.link.Sealed := whole.resolve_left fun opened => by
      rcases told with exiting | shut
      · exact absurd (exiting.symm.trans opened.1) (by decide)
      · exact absurd (shut.symm.trans opened.2) (by decide)
    exact final_of_stills (run_stills more c closed)

def numbered (n : Nat) : Outgoing := ⟨⟨n, 1⟩, ⟨1, [7], .toHost ⟨1, .none, .none, ⟨1⟩, true⟩⟩⟩

def interrupted : List Turn :=
  [.call (.send (numbered 0)), .step, .call (.send (numbered 1)), .step, .call (.send (numbered 2)), .step,
    .call (.uplink (.pump 2))] ++ List.replicate 10 .step

def interrupting : List (List LinkCall) := [[.uplink .pause, .uplink (.spoil 5), .shutdown]]

theorem nested_shutdown_is_final :
    let waiting : List Frame := [.answer, .script [], .letGo, .settle 0, .pump 1 1]
    let c := (start {} interrupting .delivered).run interrupted
    let told := (start {} interrupting .delivered).run (interrupted ++ [.step, .step])
    c.agenda = .call .shutdown :: waiting ∧ c.rig.link.queue.length = 2 ∧
      (∃ n r, c.Returns n r waiting ∧ r.link.Sealed) ∧ told.rig.link.exiting = true ∧
      told.Final (told.run (List.replicate 13 .step)) ∧ (told.run (List.replicate 13 .step)).agenda = [.pump 1 1] := by
  have calls : ((start {} interrupting .delivered).run interrupted).agenda =
      .call .shutdown :: [.answer, .script [], .letGo, .settle 0, .pump 1 1] := by rfl
  have told : ((start {} interrupting .delivered).run (interrupted ++ [.step, .step])).rig.link.exiting = true := by rfl
  have nested := shutdown_is_final {} interrupting .delivered interrupted
  have later := shutdown_is_final {} interrupting .delivered (interrupted ++ [.step, .step])
  exact ⟨calls, by rfl, nested.returns _ calls, told, later.forever (.inl told) _, by rfl⟩

end Course

end HubRelay
