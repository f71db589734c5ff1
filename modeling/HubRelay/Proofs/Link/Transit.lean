import HubRelay.Proofs.Link.Completion
import HubRelay.Proofs.Link.Finality
import HubRelay.Proofs.Link.Likeness
import HubRelay.Proofs.Link.Passages

/-! The count of what is in transit, and what a flush makes of it. A message is in transit from when it is taken from the
queue until its transmission is over, its completion included; a closing link takes all that are left at once. A flush
answers true exactly when every accepted message has been through all of that. -/

set_option autoImplicit false

namespace HubRelay

namespace Passage

def enters : Passage → List Outgoing
  | .accepted m => [m]
  | _ => []

def leaves : Passage → List Outgoing
  | .taken m => [m]
  | .closed left => left
  | _ => []

end Passage

-- The messages taken from the queue whose transmissions end with the frame or with one that it turns into.
def Frame.owed : Frame → List Nat
  | .settle n => [n]
  | .failAll n messages => List.range' n messages.length
  | _ => []

theorem load_owed (agenda : List Frame) : load agenda = (agenda.flatMap Frame.owed).length := by
  induction agenda with
  | nil => rfl
  | cons f rest ih =>
      have own : f.load = f.owed.length := by cases f <;> simp [Frame.load, Frame.owed]
      rw [load_cons, List.flatMap_cons, List.length_append, own, ih]

namespace Uplink

variable {entering leaving : List Outgoing} {u u' : Uplink}

structure Shifts (entering leaving : List Outgoing) (u u' : Uplink) : Prop where
  settings : u'.settings = u.settings
  accepted : u'.tally.accepted = u.tally.accepted + entering.length
  queue : u.queue.toList ++ entering = leaving ++ u'.queue.toList
  room : u.queue.length ≤ u.settings.capacity → u'.queue.length ≤ u.settings.capacity

theorem shifts_none (settings : u'.settings = u.settings) (tally : u'.tally.accepted = u.tally.accepted)
    (queue : u'.queue = u.queue) : u.Shifts [] [] u' := by
  constructor
  case settings => exact settings
  case accepted => simpa using tally
  case queue => simp [queue]
  case room => simp [queue]

theorem send_shifts (m : Outgoing) (u : Uplink) : u.Shifts (if (u.send m).1 then [m] else []) [] (u.send m).2 := by
  by_cases full : (u.shutDown || u.settings.capacity ≤ u.queue.length) = true
  · rw [send, if_pos full]
    exact shifts_none rfl rfl rfl
  · have room : u.queue.length < u.settings.capacity := by simp at full; omega
    rw [send, if_neg full]
    constructor
    case settings => rfl
    case accepted => rfl
    case queue => simp
    case room =>
      intro _
      rw [← Fifo.length_toList, Fifo.toList_push, List.length_append, Fifo.length_toList]
      exact room

theorem record_shifts (m : Outgoing) (fails : Bool) (u : Uplink) : u.Shifts [] [] (u.record m fails) :=
  shifts_none (record_settings m fails u) (record_accepted m fails u) (record_queue m fails u)

theorem take_shifts {m : Outgoing} {fails : Bool} (taken : u.take? = some (m, fails, u')) :
    u.Shifts [] [m] (u'.record m fails) := by
  obtain ⟨queue, settings, tally, -⟩ := take_some taken
  have shorter := take_length taken
  constructor
  case settings => rw [record_settings, settings]
  case accepted => rw [record_accepted, tally, List.length_nil, Nat.add_zero]
  case queue => rw [record_queue, queue, List.append_nil, List.singleton_append]
  case room =>
    intro room
    rw [record_queue]
    omega

theorem close_shifts (u : Uplink) : u.Shifts [] u.queue.toList u.close.takeAll.2 := by
  constructor
  case settings => rfl
  case accepted => rfl
  case queue => rfl
  case room => exact fun _ => Nat.zero_le _

end Uplink

namespace Rig

theorem call_shifts (c : LinkCall) (r : Rig) : r.link.Shifts ((r.passes (.call c)).flatMap Passage.enters)
    ((r.passes (.call c)).flatMap Passage.leaves) (r.call c).2.link := by
  cases c with
  | uplink c =>
      cases c with
      | start =>
          simp only [call]
          split
          · next link started =>
              obtain rfl := Uplink.start_ok started
              exact Uplink.shifts_none rfl rfl rfl
          · exact Uplink.shifts_none rfl rfl rfl
      | pump | pause | resume | spoil | takeReceived => exact Uplink.shifts_none rfl rfl rfl
  | send m =>
      have shifts := r.link.send_shifts m
      have passed : r.passes (.call (.send m)) = [if (r.link.send m).1 then .accepted m else .refused] := rfl
      have sent : (r.call (.send m)).2.link = (r.link.send m).2 := rfl
      rw [passed, sent]
      by_cases taken : (r.link.send m).1 = true
      · rw [if_pos taken] at shifts ⊢
        exact shifts
      · rw [if_neg taken] at shifts ⊢
        exact shifts
  | shutdown | deliver | bind =>
      simp only [call]
      split <;> exact Uplink.shifts_none rfl rfl rfl
  | flush | dropListener | malformed => exact Uplink.shifts_none rfl rfl rfl

theorem takes_shifts {m : Outgoing} {fails : Bool} {link : Uplink} (n : Nat) (r : Rig)
    (taken : r.link.take? = some (m, fails, link)) : r.link.Shifts (r.takes.flatMap Passage.enters)
      (r.takes.flatMap Passage.leaves) (({ r with link := link } : Rig).transmit n m fails).2.link := by
  rw [takes_some taken, transmit_link]
  exact Uplink.take_shifts taken

theorem step_shifts (f : Frame) (r : Rig) : r.link.Shifts ((r.passes f).flatMap Passage.enters)
    ((r.passes f).flatMap Passage.leaves) (r.step f).2.link := by
  have still : r.link.Shifts [] [] r.link := Uplink.shifts_none rfl rfl rfl
  cases f with
  | call c => exact r.call_shifts c
  | answer | flushed | letGo => exact still
  | settle => exact Uplink.shifts_none rfl rfl rfl
  | script calls => cases calls <;> exact still
  | report =>
      simp only [step]
      split <;> exact still
  | pump left sent =>
      cases left with
      | zero => exact still
      | succ left =>
          simp only [step, passes]
          split
          · next none =>
              rw [takes_none none]
              exact still
          · next taken => exact r.takes_shifts _ taken
  | haul =>
      simp only [step, passes]
      split
      · split
        · next none =>
            rw [takes_none none]
            exact still
        · next taken => exact r.takes_shifts _ taken
      · exact still
  | close =>
      have shifts := r.link.close_shifts
      simp only [step, passes, List.flatMap_cons, List.flatMap_nil, Passage.enters, Passage.leaves, List.append_nil]
      exact shifts
  | failAll n messages =>
      cases messages with
      | nil => exact still
      | cons m rest =>
          simp only [step, transmit_link]
          exact Uplink.record_shifts m true r.link

theorem call_owed (c : LinkCall) (r : Rig) : (r.call c).1.flatMap Frame.owed = [] := by
  rw [List.flatMap_eq_nil_iff]
  intro g member
  rcases call_frames member with ⟨limit, rfl⟩ | ⟨rfl, -⟩ | rfl | rfl <;> rfl

theorem call_leaves (c : LinkCall) (r : Rig) : (r.passes (.call c)).flatMap Passage.leaves = [] := by
  cases c with
  | send m =>
      simp only [passes]
      split <;> rfl
  | uplink c => cases c <;> rfl
  | flush | shutdown | deliver | bind | dropListener | malformed => rfl

theorem transmit_owed (n : Nat) (m : Outgoing) (fails : Bool) (r : Rig) :
    (r.transmit n m fails).1.flatMap Frame.owed = [n] := by
  have silent : (List.replicate r.link.reports (Frame.report n m.handle)).flatMap Frame.owed = [] := by
    simp [List.flatMap_eq_nil_iff, Frame.owed]
  rw [transmit]
  split
  · rw [List.flatMap_append, silent]
    rfl
  · rfl

theorem takes_owed {m : Outgoing} {fails : Bool} {link : Uplink} (r : Rig) (next : Frame) (idle : next.owed = [])
    (taken : r.link.take? = some (m, fails, link)) :
    ((({ r with link := link } : Rig).transmit r.link.oldest m fails).1 ++ [next]).flatMap Frame.owed =
      List.range' r.link.oldest (r.takes.flatMap Passage.leaves).length := by
  rw [takes_some taken, List.flatMap_append, transmit_owed, List.flatMap_cons, idle]
  rfl

theorem step_owed (f : Frame) (r : Rig) : f.settled?.toList ++ (r.step f).1.flatMap Frame.owed =
    f.owed ++ List.range' r.link.oldest ((r.passes f).flatMap Passage.leaves).length := by
  cases f with
  | call c =>
      rw [call_leaves]
      exact r.call_owed c
  | answer | flushed | letGo | settle => rfl
  | script calls => cases calls <;> rfl
  | report =>
      simp only [step]
      split <;> rfl
  | pump left sent =>
      cases left with
      | zero => rfl
      | succ left =>
          simp only [step, passes]
          split
          · next none =>
              rw [takes_none none]
              rfl
          · next taken => exact r.takes_owed _ rfl taken
  | haul =>
      simp only [step, passes]
      split
      · split
        · next none =>
            rw [takes_none none]
            rfl
        · next taken => exact r.takes_owed _ rfl taken
      · rfl
  | close =>
      simp [step, passes, Frame.owed, Frame.settled?, Uplink.takeAll, Uplink.close, Passage.leaves]
  | failAll n messages =>
      cases messages with
      | nil => rfl
      | cons m rest =>
          simp [step, passes, transmit_owed, Frame.owed, Frame.settled?, Passage.leaves, List.range'_succ]

theorem step_settles (f : Frame) (rest : List Frame) (r : Rig) (settles : Settles (f :: rest)) :
    Settles ((r.step f).1 ++ rest) := by
  have plain (frames : List Frame) (later : Settles rest) (silent : ∀ g ∈ frames, g.reported? = none) :
      Settles (frames ++ rest) := (settles_idle frames rest silent).mpr later
  have drawn (draws : r.Draws f) (later : Settles rest) : Settles ((r.step f).1 ++ rest) := by
    cases draws with
    | rests reply stepped =>
        rw [stepped]
        exact later
    | takes m fails link next taken goes stepped =>
        rw [stepped, List.append_assoc]
        apply transmit_settles
        rcases goes with rfl | ⟨left, sent, rfl⟩ <;> exact later
  cases f with
  | call c =>
      apply plain _ settles
      intro g member
      rcases call_frames member with ⟨limit, rfl⟩ | ⟨rfl, -⟩ | rfl | rfl <;> rfl
  | answer | flushed | letGo | settle => exact settles
  | script calls => cases calls <;> exact settles
  | report n k =>
      simp only [step]
      split <;> exact settles.2
  | pump left sent => exact drawn (r.pump_draws left sent) settles
  | haul => exact drawn r.haul_draws settles
  | close => exact settles
  | failAll n messages =>
      cases messages with
      | nil => exact settles
      | cons m messages =>
          simp only [step, List.append_assoc]
          exact transmit_settles _ _ _ _ settles

end Rig

namespace Course

def fresh (settings : LinkSettings) (bound : Bool) (scripts : List (List LinkCall)) (routing : Routing) : Course :=
  ⟨{ link := { settings := settings }, bound := bound, scripts := scripts, routing := routing }, []⟩

def accepted (turns : List Turn) (c : Course) : List Outgoing := (c.passages turns).flatMap Passage.enters

def taken (turns : List Turn) (c : Course) : List Outgoing := (c.passages turns).flatMap Passage.leaves

def finishes (t : Turn) (c : Course) : List Nat :=
  match t, c.agenda with
  | .step, f :: _ => f.settled?.toList
  | _, _ => []

def finished : List Turn → Course → List Nat
  | [], _ => []
  | t :: rest, c => c.finishes t ++ finished rest (c.turn t)

structure Tracks (settings : LinkSettings) (past : List Passage) (gone : List Nat) (c : Course) : Prop where
  room : c.rig.link.queue.length ≤ settings.capacity
  settings : c.rig.link.settings = settings
  accepted : c.rig.link.tally.accepted = (past.flatMap Passage.enters).length
  order : past.flatMap Passage.enters = past.flatMap Passage.leaves ++ c.rig.link.queue.toList
  counted : c.rig.link.inTransit = load c.agenda
  owed : (gone ++ c.agenda.flatMap Frame.owed).Perm (List.range (past.flatMap Passage.leaves).length)
  settles : Settles c.agenda
  nested : Nested c.agenda ∨ ∃ call, c.agenda = [.call call]

variable {settings : LinkSettings} {past : List Passage} {gone : List Nat}

theorem tracks_oldest {c : Course} (tracks : c.Tracks settings past gone) :
    c.rig.link.oldest = (past.flatMap Passage.leaves).length := by
  have lengths := congrArg List.length tracks.order
  rw [List.length_append, Fifo.length_toList, ← tracks.accepted] at lengths
  rw [Uplink.oldest]
  omega

theorem owed_perm {gone ended before after rest : List Nat} {n k : Nat}
    (moved : ended ++ after = before ++ List.range' n k) (owed : (gone ++ (before ++ rest)).Perm (List.range n)) :
    (gone ++ ended ++ (after ++ rest)).Perm (List.range (n + k)) := by
  have more : List.range (n + k) = List.range n ++ List.range' n k := by
    rw [List.range_eq_range', List.range_eq_range', ← List.range'_append_1, Nat.zero_add]
  have same : gone ++ ended ++ (after ++ rest) = gone ++ (before ++ (List.range' n k ++ rest)) := by
    rw [List.append_assoc, ← List.append_assoc ended, moved, List.append_assoc before]
  have last : (gone ++ (before ++ (List.range' n k ++ rest))).Perm (gone ++ (before ++ rest) ++ List.range' n k) := by
    simp only [List.append_assoc]
    exact (List.perm_append_comm.append_left before).append_left gone
  rw [same, more]
  exact last.trans (owed.append_right _)

theorem tracks_step (r : Rig) (f : Frame) (rest : List Frame) (tracks : (Course.mk r (f :: rest)).Tracks settings past gone) :
    (Course.mk (r.step f).2 ((r.step f).1 ++ rest)).Tracks settings (past ++ r.passes f) (gone ++ f.settled?.toList) := by
  have shifts := r.step_shifts f
  have room : r.link.queue.length ≤ r.link.settings.capacity := tracks.settings ▸ tracks.room
  have counted : r.link.inTransit = f.load + load rest := by rw [← load_cons]; exact tracks.counted
  have balance := r.step_load f (by omega)
  have oldest := tracks_oldest tracks
  constructor
  case settings => exact shifts.settings.trans tracks.settings
  case room =>
    rw [← tracks.settings]
    exact shifts.room room
  case accepted =>
    rw [List.flatMap_append, List.length_append, ← tracks.accepted]
    exact shifts.accepted
  case order =>
    rw [List.flatMap_append, List.flatMap_append, tracks.order, List.append_assoc, List.append_assoc]
    exact congrArg _ shifts.queue
  case counted =>
    rw [load_append]
    show (r.step f).2.link.inTransit = _
    omega
  case owed =>
    have moved := r.step_owed f
    rw [show r.link.oldest = _ from oldest] at moved
    rw [List.flatMap_append, List.flatMap_append, List.length_append]
    exact owed_perm moved tracks.owed
  case settles => exact r.step_settles f rest tracks.settles
  case nested =>
    rcases tracks.nested with nested | ⟨call, single⟩
    · exact .inl (r.step_nested f rest nested)
    · cases single
      exact .inl (r.call_nested call trivial)

theorem tracks_turn (t : Turn) (c : Course) (tracks : c.Tracks settings past gone) :
    (c.turn t).Tracks settings (past ++ c.passes t) (gone ++ c.finishes t) := by
  obtain ⟨r, agenda⟩ := c
  cases agenda with
  | nil =>
      have idle : (⟨r, []⟩ : Course).passes t = [] ∧ (⟨r, []⟩ : Course).finishes t = [] := by cases t <;> exact ⟨rfl, rfl⟩
      rw [idle.1, idle.2, List.append_nil, List.append_nil]
      obtain ⟨room, same, accepted, order, counted, owed, -, -⟩ := tracks
      cases t with
      | call c => exact ⟨room, same, accepted, order, counted, owed, trivial, .inr ⟨c, rfl⟩⟩
      | haul => exact ⟨room, same, accepted, order, counted, owed, trivial, .inl ⟨fun speaks => speaks.elim, trivial⟩⟩
      | step => exact ⟨room, same, accepted, order, counted, owed, trivial, .inl trivial⟩
  | cons f rest =>
      cases t with
      | step => exact tracks_step r f rest tracks
      | call | haul =>
          change (⟨r, f :: rest⟩ : Course).Tracks settings (past ++ []) (gone ++ [])
          rw [List.append_nil, List.append_nil]
          exact tracks

theorem tracks_run (turns : List Turn) (c : Course) (past : List Passage) (gone : List Nat)
    (tracks : c.Tracks settings past gone) :
    (c.run turns).Tracks settings (past ++ c.passages turns) (gone ++ c.finished turns) := by
  induction turns generalizing c past gone with
  | nil =>
      rw [passages, finished, List.append_nil, List.append_nil]
      exact tracks
  | cons t rest ih =>
      have next := ih (c.turn t) _ _ (tracks_turn t c tracks)
      rw [List.append_assoc, List.append_assoc] at next
      exact next

theorem fresh_tracks (settings : LinkSettings) (bound : Bool) (scripts : List (List LinkCall)) (routing : Routing)
    (turns : List Turn) : ((fresh settings bound scripts routing).run turns).Tracks settings
      ((fresh settings bound scripts routing).passages turns) ((fresh settings bound scripts routing).finished turns) := by
  have new : (fresh settings bound scripts routing).Tracks settings [] [] :=
    ⟨Nat.zero_le _, rfl, rfl, rfl, rfl, .refl _, trivial, .inl trivial⟩
  exact tracks_run turns _ [] [] new

theorem tracks_ended {c : Course} (tracks : c.Tracks settings past gone) :
    gone.Nodup ∧ ∀ n ∈ gone, n < (past.flatMap Passage.leaves).length := by
  have distinct := tracks.owed.nodup_iff.mpr List.nodup_range
  constructor
  · exact (List.nodup_append.mp distinct).1
  · intro n ended
    apply List.mem_range.mp
    exact tracks.owed.mem_iff.mp (List.mem_append_left _ ended)

theorem tracks_owed {c : Course} (tracks : c.Tracks settings past gone) (n : Nat) :
    n ∈ c.agenda.flatMap Frame.owed ↔ n < (past.flatMap Passage.leaves).length ∧ n ∉ gone := by
  have distinct := tracks.owed.nodup_iff.mpr List.nodup_range
  have apart := (List.nodup_append.mp distinct).2.2
  have known : n ∈ gone ∨ n ∈ c.agenda.flatMap Frame.owed ↔ n < (past.flatMap Passage.leaves).length := by
    rw [← List.mem_append, tracks.owed.mem_iff, List.mem_range]
  constructor
  · intro due
    exact ⟨known.mp (.inr due), fun ended => apart n ended n due rfl⟩
  · rintro ⟨left, waiting⟩
    exact (known.mpr left).resolve_left waiting

theorem tracks_settles {c : Course} {n : Nat} (tracks : c.Tracks settings past gone) (due : .settle n ∈ c.agenda) :
    n ∉ gone := by
  have waiting : n ∈ c.agenda.flatMap Frame.owed := List.mem_flatMap.mpr ⟨.settle n, due, List.mem_singleton_self n⟩
  exact ((tracks_owed tracks n).mp waiting).2

theorem tracks_counted {c : Course} (tracks : c.Tracks settings past gone) :
    c.rig.link.inTransit = (List.range (past.flatMap Passage.leaves).length).countP (· ∉ gone) := by
  have ended : gone.countP (· ∉ gone) = 0 := by simp [List.countP_eq_zero]
  have due : (c.agenda.flatMap Frame.owed).countP (· ∉ gone) = (c.agenda.flatMap Frame.owed).length := by
    rw [List.countP_eq_length]
    intro n member
    simpa using ((tracks_owed tracks n).mp member).2
  rw [← tracks.owed.countP_eq, List.countP_append, ended, due, Nat.zero_add, tracks.counted, load_owed]

theorem tracks_idle {c : Course} (tracks : c.Tracks settings past gone) : c.rig.link.idle = true ↔
    ∀ n < (past.flatMap Passage.enters).length, n < (past.flatMap Passage.leaves).length ∧ n ∈ gone := by
  have lengths := congrArg List.length tracks.order
  rw [List.length_append, Fifo.length_toList] at lengths
  have idle : c.rig.link.idle = true ↔ c.rig.link.queue.length = 0 ∧ c.agenda.flatMap Frame.owed = [] := by
    rw [Uplink.idle, tracks.counted, load_owed, Bool.and_eq_true, beq_iff_eq, beq_iff_eq, List.length_eq_zero_iff]
  rw [idle]
  constructor
  · rintro ⟨empty, none⟩ n entered
    have left : n < (past.flatMap Passage.leaves).length := by omega
    constructor
    · exact left
    · apply Decidable.byContradiction
      intro waiting
      have due := (tracks_owed tracks n).mpr ⟨left, waiting⟩
      simp [none] at due
  · intro cleared
    constructor
    · apply Nat.eq_zero_of_not_pos
      intro waiting
      have left := (cleared (past.flatMap Passage.leaves).length (by omega)).1
      omega
    · apply List.eq_nil_iff_forall_not_mem.mpr
      intro n due
      obtain ⟨left, waiting⟩ := (tracks_owed tracks n).mp due
      exact waiting (cleared n (by omega)).2

def Cleared (turns : List Turn) (c : Course) : Prop :=
  ∀ n < (c.accepted turns).length, n < (c.taken turns).length ∧ n ∈ c.finished turns

instance (turns : List Turn) (c : Course) : Decidable (c.Cleared turns) :=
  inferInstanceAs (Decidable (∀ n < (c.accepted turns).length, n < (c.taken turns).length ∧ n ∈ c.finished turns))

theorem tracks_within {c : Course} {call : LinkCall} {rest : List Frame} (tracks : c.Tracks settings past gone)
    (called : c.agenda = .call call :: rest) (inner : rest ≠ []) : 0 < c.rig.link.inTransit := by
  rcases tracks.nested with nested | ⟨other, single⟩
  · rw [called] at nested
    have waiting : 0 < load rest := nested.1 trivial
    rw [tracks.counted, called, load_cons]
    omega
  · rw [called] at single
    cases single
    exact absurd rfl inner

theorem settle_lowers {c : Course} {n : Nat} {rest : List Frame} (tracks : c.Tracks settings past gone)
    (first : c.agenda = .settle n :: rest) : (c.turn .step).rig.link.inTransit + 1 = c.rig.link.inTransit := by
  have counted := tracks.counted
  rw [first, load_cons, Frame.load] at counted
  obtain ⟨r, agenda⟩ := c
  subst first
  change r.link.inTransit - 1 + 1 = r.link.inTransit
  change r.link.inTransit = _ at counted
  omega

theorem flush_returns {c : Course} {rest : List Frame} (called : c.agenda = .call .flush :: rest)
    (still : c.rig.link.hauling = false ∨ 0 < c.rig.link.inTransit) :
    c.Returns 2 { c.rig with reply := .flag c.rig.link.idle } rest := by
  obtain ⟨r, agenda⟩ := c
  subst called
  apply returns_of_two
  · rw [Rig.step, Rig.call, r.catch_up_none still]
    rfl
  · rfl

theorem flush_replies {c : Course} {rest : List Frame} (called : c.agenda = .call .flush :: rest) :
    ∃ k r, c.Returns k r rest ∧ r.reply = .flag r.link.idle := by
  obtain ⟨r, agenda⟩ := c
  subst called
  obtain ⟨k, returned⟩ := returns [.call .flush] rest r
  have last (r' : Rig) : r'.run [.flushed] = { r' with reply := .flag r'.link.idle } := by
    rw [Rig.run_cons, Rig.step, Rig.answer, List.append_nil, Rig.run_nil]
  have whole : r.run [.call .flush] = (r.run r.catchUp).run [.flushed] := by
    rw [Rig.run_cons, Rig.step, Rig.call, List.append_nil, Rig.run_append]
  refine ⟨k, _, returned, ?_⟩
  rw [whole, last]

/-- How a link counts what is in transit, and what its flushes answer, at any point of a course from `c`. -/
structure CountsTransit (settings : LinkSettings) (turns : List Turn) (c : Course) : Prop where
  room : (c.run turns).rig.link.queue.length ≤ settings.capacity
  order : c.accepted turns = c.taken turns ++ (c.run turns).rig.link.queue.toList
  -- The transmission of a message that was taken ends once, and its completion has returned by then.
  once : (c.finished turns).Nodup
  taken : ∀ n ∈ c.finished turns, n < (c.taken turns).length
  completed : ∀ n ∈ c.finished turns, ∀ k, .report n k ∉ (c.run turns).agenda
  completion : ∀ n k rest, (c.run turns).agenda = .report n k :: rest → ∃ i r, (c.run turns).Returns i r rest ∧
    ∀ j ≤ i, n ∉ c.finished (turns ++ List.replicate j .step)
  owed : ∀ n, n ∈ (c.run turns).agenda.flatMap Frame.owed ↔ n < (c.taken turns).length ∧ n ∉ c.finished turns
  counted : (c.run turns).rig.link.inTransit = (List.range (c.taken turns).length).countP (· ∉ c.finished turns)
  -- The count can be lowered whenever it is.
  lowered : ∀ n rest, (c.run turns).agenda = .settle n :: rest →
    ((c.run turns).turn .step).rig.link.inTransit + 1 = (c.run turns).rig.link.inTransit
  flush : ∀ rest, (c.run turns).agenda = .call .flush :: rest → ∃ k r b, (c.run turns).Returns k r rest ∧
    r.reply = .flag b ∧ (b = true ↔ c.Cleared (turns ++ List.replicate k .step))
  -- Where no transport thread would transmit meanwhile, it changes nothing.
  alone : ∀ rest, (c.run turns).agenda = .call .flush :: rest → (c.run turns).rig.link.hauling = false →
    ∃ b, (c.run turns).Returns 2 { (c.run turns).rig with reply := .flag b } rest ∧ (b = true ↔ c.Cleared turns)
  inside : ∀ rest, (c.run turns).agenda = .call .flush :: rest → rest ≠ [] →
    (c.run turns).Returns 2 { (c.run turns).rig with reply := .flag false } rest ∧ ¬ c.Cleared turns

theorem transit_counted (settings : LinkSettings) (bound : Bool) (scripts : List (List LinkCall)) (routing : Routing)
    (turns : List Turn) : (fresh settings bound scripts routing).CountsTransit settings turns := by
  have tracks := fresh_tracks settings bound scripts routing
  generalize fresh settings bound scripts routing = c at tracks
  have now := tracks turns
  obtain ⟨once, below⟩ := tracks_ended now
  have idle : (c.run turns).rig.link.idle = true ↔ c.Cleared turns := tracks_idle now
  constructor
  case room => exact now.room
  case order => exact now.order
  case once => exact once
  case taken => exact below
  case completed =>
    intro n ended k due
    exact tracks_settles now (reported_settles n k _ now.settles due) ended
  case completion =>
    intro n k rest first
    have later : .settle n ∈ rest := (first ▸ now.settles : Settles (.report n k :: rest)).1
    obtain ⟨i, r, returned⟩ := first_returns first
    refine ⟨i, r, returned, fun j reached => ?_⟩
    obtain ⟨frames, above⟩ := returned.above j reached
    have after := tracks (turns ++ List.replicate j .step)
    apply tracks_settles after
    rw [run_append, show ((c.run turns).run _).agenda = _ from above]
    exact List.mem_append_right frames later
  case owed => exact tracks_owed now
  case counted => exact tracks_counted now
  case lowered => exact fun n rest first => settle_lowers now first
  case flush =>
    intro rest called
    obtain ⟨k, r, returned, replied⟩ := flush_replies called
    have after := tracks (turns ++ List.replicate k .step)
    rw [run_append, show (c.run turns).run _ = _ from returned.returned] at after
    exact ⟨k, r, _, returned, replied, tracks_idle after⟩
  case alone => exact fun rest called still => ⟨_, flush_returns called (.inl still), idle⟩
  case inside =>
    intro rest called inner
    have busy := tracks_within now called inner
    have answer : (c.run turns).rig.link.idle = false := by
      rw [Uplink.idle, beq_eq_false_iff_ne.mpr (Nat.ne_of_gt busy), Bool.and_false]
    have returned := flush_returns called (.inr busy)
    rw [answer] at returned idle
    exact ⟨returned, fun cleared => absurd (idle.mpr cleared) Bool.false_ne_true⟩

def crowding : List (List LinkCall) := [[.shutdown], [.flush]]

def crowded : List Turn :=
  [.call (.send (numbered 0)), .step, .call (.send (numbered 1)), .step, .call (.send (numbered 2)), .step,
    .call (.uplink (.pump 1))] ++ List.replicate 9 .step

def flushing : List Turn := crowded ++ List.replicate 12 .step ++ [.call .flush]

theorem nested_transit_counted :
    let c := fresh { capacity := 2 } true crowding .delivered
    let waiting : List Frame := [.answer, .script [], .letGo, .settle 1, .failAll 2 [], .answer, .script [], .letGo,
      .settle 0, .pump 0 1]
    (c.run crowded).agenda = .call .flush :: waiting ∧ (c.run crowded).rig.link.inTransit = 2 ∧
      (c.run crowded).Returns 2 { (c.run crowded).rig with reply := .flag false } waiting ∧
      (c.run flushing).agenda = [.call .flush] ∧ (c.run flushing).rig.link.hauling = false ∧ c.Cleared flushing ∧
      (c.run flushing).Returns 2 { (c.run flushing).rig with reply := .flag true } [] := by
  have within := transit_counted { capacity := 2 } true crowding .delivered crowded
  have after := transit_counted { capacity := 2 } true crowding .delivered flushing
  have called : ((fresh { capacity := 2 } true crowding .delivered).run crowded).agenda = .call .flush ::
      [.answer, .script [], .letGo, .settle 1, .failAll 2 [], .answer, .script [], .letGo, .settle 0, .pump 0 1] := by rfl
  have again : ((fresh { capacity := 2 } true crowding .delivered).run flushing).agenda = [.call .flush] := by rfl
  have cleared : (fresh { capacity := 2 } true crowding .delivered).Cleared flushing := by decide
  obtain ⟨b, returned, truthful⟩ := after.alone [] again (by rfl)
  rw [truthful.mpr cleared] at returned
  exact ⟨called, by rfl, (within.inside _ called (by simp)).1, again, by rfl, cleared, returned⟩

end Course

end HubRelay
