import HubRelay.Proofs.Loop.Capacity
import HubRelay.Proofs.Relay.Duplicates
import HubRelay.Proofs.Relay.HostEvents
import HubRelay.Proofs.Relay.Tallies

/-! The counts of the relay, of the link and of the nanoapps, whatever happens between them. They agree because each
message that the link is done with still has its slot. -/

set_option autoImplicit false

namespace HubRelay

namespace Scene

def calls (x : Incident) (c : Scene) : Nat :=
  match x with
  | .move (.act a) => c.stack.calls a
  | _ => 0

def offers : List Incident → Scene → Nat
  | [], _ => 0
  | x :: rest, c => c.calls x + offers rest (c.meet x)

end Scene

theorem Stack.dropLoop_loops (i : Nat) (s : Stack) :
    (s.dropLoop i).hub.loops = s.hub.loops.modify i fun l => { l with queue := .empty, apps := [], attached := false } := by
  have dropped : ∀ (tasks : List Task) (h : Hub), (tasks.foldl (fun h t => h.discardTask t) h).loops = h.loops := by
    intro tasks
    induction tasks with
    | nil => exact fun _ => rfl
    | cons t rest ih =>
        intro h
        refine (ih (h.discardTask t)).trans ?_
        cases t with
        | event e => exact h.discard_loops e
        | job j => cases j <;> rfl
        | load | unload | stop => rfl
  exact dropped _ _

namespace Scene

theorem meet_requested (x : Incident) (c : Scene) (lawful : x.Lawful) (kept : x ≠ .move .dropRelay) (linked : c.stack.Linked)
    (requested : c.traffic.Requested) : (c.meet x).traffic.Requested := by
  cases x with
  | move m =>
      obtain ⟨-, follows | ⟨lost, -⟩⟩ := move_follows m c lawful linked
      · exact follows_invariant _ _ _ Traffic.Requested follows requested (Traffic.change_requested _)
      · exact absurd (congrArg Incident.move lost) kept
  | dropLoop j =>
      intro i badge known
      have listed : requests i (c.stack.dropLoop j).hub.history = requests i c.stack.hub.history :=
        congrArg (fun books => books.register.requested i) (Stack.books_dropLoop j c.stack)
      have before : c.traffic.known i badge := by
        refine known.imp id fun ⟨l, place, knows⟩ => ?_
        change (c.stack.dropLoop j).hub.loops[i]? = some l at place
        rw [Stack.dropLoop_loops, List.getElem?_modify] at place
        obtain ⟨l', place', same⟩ := Option.map_eq_some_iff.mp place
        refine ⟨l', place', ?_⟩
        split at same
        · cases same
          rcases knows with roster | ⟨a, member, -⟩ | ⟨program, member⟩
          · exact .inl roster
          · cases member
          · cases member
        · cases same
          exact knows
      refine (mem_requests i badge _).mp ?_
      change badge ∈ requests i (c.stack.dropLoop j).hub.history
      rw [listed]
      exact (mem_requests i badge _).mpr (requested i badge before)

theorem meet_tallied (x : Incident) (c : Scene) (n : Nat) (b : Manifest) (kept : x ≠ .move .dropRelay)
    (linked : c.stack.Linked) (requested : c.traffic.Requested) (tallied : c.stack.Tallied n b) :
    (c.meet x).stack.Tallied (n + c.calls x) (b.addAll (c.passes x)) := by
  obtain ⟨u, link⟩ := linked
  simp only [passes, link]
  cases x with
  | dropLoop j => exact Stack.tallied_books _ tallied (Stack.books_dropLoop j c.stack)
  | move m =>
      have still : (∀ a, m ≠ .act a) → (c.move m).stack.Tallied n b := fun apart =>
        Stack.tallied_books _ tallied
          (books_move m c (fun a same => absurd same (apart a)) fun same => kept (congrArg Incident.move same))
      cases m with
      | act a =>
          refine Stack.act_tallied a c.stack u link (fun i badge knows => ?_) tallied
          obtain ⟨account, tallies⟩ := tallied.register
          exact tallies.entered i badge ((mem_requests i badge _).mpr (requested i badge (.inr knows)))
      | haul =>
          obtain ⟨accepted, refused⟩ := Manifest.addAll_quiet u.hauls b u.hauls_quiet
          exact Stack.tallied_passages _ (still (by simp)) accepted refused
      | dropRelay => exact absurd rfl kept
      | turn | note | tell | occupy | take | finish | shut | quit | clearRoster | drop | detach => exact still (by simp)

theorem meet_linked (x : Incident) (c : Scene) (lawful : x.Lawful) (linked : c.stack.Linked) : (c.meet x).stack.Linked := by
  cases x with
  | move m => exact (move_follows m c lawful linked).1
  | dropLoop j => exact linked

theorem undergo_tallied (incidents : List Incident) (c : Scene) (n : Nat) (b : Manifest) (lawful : ∀ x ∈ incidents, x.Lawful)
    (kept : .move .dropRelay ∉ incidents) (linked : c.stack.Linked) (requested : c.traffic.Requested)
    (tallied : c.stack.Tallied n b) :
    (c.undergo incidents).stack.Tallied (n + c.offers incidents) (b.addAll (c.passages incidents)) := by
  induction incidents generalizing c n b with
  | nil => exact tallied
  | cons x rest ih =>
      have own := lawful x List.mem_cons_self
      have stays : x ≠ .move .dropRelay := fun same => kept (same ▸ List.mem_cons_self)
      rw [passages, offers, Manifest.addAll_append, ← Nat.add_assoc]
      exact ih (c.meet x) _ _ (fun y member => lawful y (List.mem_cons_of_mem x member))
        (fun member => kept (List.mem_cons_of_mem x member)) (meet_linked x c own linked)
        (meet_requested x c own stays linked requested) (meet_tallied x c n b stays linked requested tallied)

theorem move_beside (m : Move) (c : Scene) (left : List (Nat × Epilogue)) :
    c.move m = c ∨ (Scene.mk c.stack (c.hand ++ left)).move m = ⟨(c.move m).stack, (c.move m).hand ++ left⟩ := by
  cases m with
  | take i =>
      refine .inr ?_
      simp only [move, take]
      cases c.stack.next? i with
      | none => rfl
      | some found => rfl
  | finish place =>
      simp only [move, finish]
      cases held : c.hand[place]? with
      | none => exact .inl rfl
      | some found =>
          have inside := (List.getElem?_eq_some_iff.mp held).1
          refine .inr ?_
          rw [List.getElem?_append_left inside, held]
          simp only [List.eraseIdx_append_of_lt_length inside]
  | drop i | detach i =>
      refine .inr ?_
      simp only [move]
      split <;> rfl
  | act | haul | turn | note | tell | occupy | shut | quit | clearRoster | dropRelay => exact .inr rfl

structure Manned (c : Scene) : Prop where
  counted : c.stack.Counted
  manned : ∃ left, (c.stack.traffic (c.hand ++ left)).Manned

theorem meet_manned (x : Incident) (c : Scene) (lawful : x.Lawful) (kept : x ≠ .move .dropRelay) (manned : c.Manned) :
    (c.meet x).Manned := by
  obtain ⟨counted, left, held⟩ := manned
  cases x with
  | move m =>
      rcases move_beside m c left with still | beside
      · rw [meet, still]
        exact ⟨counted, left, held⟩
      · have stays : m ≠ .dropRelay := fun same => kept (congrArg Incident.move same)
        have linked := Stack.counted_linked c.stack counted
        have counted' := move_counted m ⟨c.stack, c.hand ++ left⟩ lawful stays held counted
        obtain ⟨-, follows | ⟨lost, -⟩⟩ := move_follows m ⟨c.stack, c.hand ++ left⟩ lawful linked
        · have held' := Traffic.follows_manned _ _ _ follows held
          rw [beside] at counted' held'
          exact ⟨counted', left, held'⟩
        · exact absurd lost stays
  | dropLoop j =>
      obtain ⟨more, held'⟩ := Stack.dropLoop_manned j c.stack held
      refine ⟨Stack.counted_dropLoop j c.stack counted, left ++ more, Traffic.manned_holders _ _ held' rfl ?_⟩
      have swapped : handErrands (c.hand ++ (left ++ more)) = handErrands (more ++ (c.hand ++ left)) := by
        simp only [handErrands_append]
        ac_rfl
      simp only [Traffic.holders, meet, onStack, Stack.traffic, Hub.traffic, swapped]

theorem undergo_manned (incidents : List Incident) (c : Scene) (lawful : ∀ x ∈ incidents, x.Lawful)
    (kept : .move .dropRelay ∉ incidents) (manned : c.Manned) : (c.undergo incidents).Manned :=
  undergo_invariant Manned (fun x => x.Lawful ∧ x ≠ .move .dropRelay) (fun x c own => meet_manned x c own.1 own.2) incidents c
    (fun x member => ⟨lawful x member, fun same => kept (same ▸ member)⟩) manned

theorem undergo_echoes (incidents : List Incident) {c d : Scene} (echoes : c.stack.Echoes d.stack) (hand : d.hand = c.hand) :
    (c.undergo incidents).stack.Echoes (d.undergo incidents).stack := by
  induction incidents generalizing c d with
  | nil => exact echoes
  | cons x rest ih =>
      cases x with
      | move m =>
          obtain ⟨moved, held⟩ := echoes_move m echoes hand
          exact ih moved held
      | dropLoop j =>
          exact ih (Stack.echoes_still (·.dropLoop j) (fun g z => Stack.wear_dropLoop g z j) (fun _ => rfl) echoes) hand

theorem completions_counted (settings : LinkSettings) (c : Scene) (incidents : List Incident) (opens : c.Opens settings)
    (lawful : ∀ x ∈ incidents, x.Lawful) (kept : .move .dropRelay ∉ incidents) :
    ∃ r u, (c.undergo incidents).stack.hub.relay = some r ∧ (c.undergo incidents).stack.link = .uplink u ∧
      r.tally.completions = u.tally.completed ∧
      r.tally.duplicateCompletions = if settings.duplicates then r.tally.completions else 0 := by
  have silent : ∀ (settings : LinkSettings) (c : Scene), c.Opens settings → settings.duplicates = false →
      (c.undergo incidents).Manned := by
    rintro settings ⟨s, hand⟩ opens silent
    obtain rfl : hand = [] := opens.idle
    obtain ⟨linked, -⟩ := opens_tame settings _ opens
    have worn := Stack.opened_worn settings s silent opens
    exact undergo_manned incidents _ lawful kept
      ⟨⟨s, _, linked, ⟨rfl, rfl, rfl⟩, worn.symm⟩, [], Stack.opened_manned settings s opens⟩
  have alive : ∀ c : Scene, c.Manned → c.stack.hub.relay.isSome := fun c manned =>
    manned.manned.elim fun left held => Stack.manned_alive c.stack _ held
  cases twice : settings.duplicates with
  | false =>
      have manned := silent settings c opens twice
      obtain ⟨r, relay⟩ := Option.isSome_iff_exists.mp (alive _ manned)
      obtain ⟨u, link⟩ := Stack.counted_linked _ manned.counted
      obtain ⟨none, all⟩ := Stack.counted_tally _ r u manned.counted relay link
      exact ⟨r, u, relay, link, all, none⟩
  | true =>
      -- The same hub on a link that reports once, which this one echoes.
      let quiet : LinkSettings := { settings with duplicates := false }
      obtain ⟨s, hand⟩ := c
      obtain rfl : hand = [] := opens.idle
      let t : Stack := { s with link := .uplink { settings := quiet } }
      have opens' : (Scene.mk t []).Opens quiet := by
        obtain ⟨⟨b, link, built⟩, -⟩ := opens
        refine ⟨⟨{ b with link := some (.uplink { settings := quiet }) }, rfl, ?_⟩, rfl⟩
        refine b.build_link (.uplink { settings := settings }) _ s ?_
        rw [← link]
        exact built
      have there : s.link = .uplink { settings := settings } := (opens_cases settings _ opens).2.1
      have same : t.wear ⟨true, 0, 0, 0, 0⟩ = s := by
        rw [Stack.opened_wear quiet t true opens']
        obtain ⟨capacity, millis, duplicates⟩ := settings
        cases twice
        exact congrArg (fun l => { s with link := l }) there.symm
      obtain ⟨linked, -⟩ := opens_tame quiet _ opens'
      have echoes : t.Echoes s := ⟨t, _, linked, rfl, (Stack.opened_worn quiet t rfl opens').symm, same.symm⟩
      have manned := silent quiet _ opens' rfl
      have twins := Stack.echoes_twins _ _ (undergo_echoes (c := ⟨t, []⟩) (d := ⟨s, []⟩) incidents echoes rfl)
      obtain ⟨r, r', relay, relay', -, duplicates, completions⟩ :=
        Stack.counted_doubles _ _ twins manned.counted (alive _ manned)
      obtain ⟨u, link, -, after⟩ := twins
      obtain ⟨-, all⟩ := Stack.counted_tally _ r u manned.counted relay link
      refine ⟨r', _, relay', congrArg Stack.link after, ?_, duplicates⟩
      rw [completions, all]

end Scene

theorem Blueprint.build_tallied (b : Blueprint) (s : Stack) (built : b.build = .ok s) : s.Tallied 0 {} := by
  unfold build at built
  split at built
  · cases built
  · cases built
  · split at built
    · cases built
    · split at built
      · cases built
      · cases built
        exact ⟨⟨⟨{}, 0, 0, 0⟩, rfl, rfl, rfl, rfl, rfl, fun _ _ => rfl, nofun⟩, nofun⟩

structure Relay.Agrees (calls : Nat) (twice : Bool) (ledger : Ledger) (u : Uplink) (r : Relay) : Prop where
  calls : calls = r.tally.accepted + r.tally.rejected
  accepted : r.tally.accepted = u.tally.accepted
  nanoapps : r.tally.accepted = ∑ entry ∈ Finset.range ledger.opened, (ledger.usage entry).sent
  refused : r.tally.rejectedByLink = u.tally.rejected
  completed : r.tally.completions = u.tally.transmitted + u.tally.failed
  queued : r.tally.completions + u.queue.length = r.tally.accepted
  duplicates : r.tally.duplicateCompletions = if twice then r.tally.completions else 0

namespace Scene

/-- As long as the relay is there, with completions reported by the link only and retries made by their own jobs: each
call was accepted or refused, and what was accepted is what the link accepted and what the nanoapps answer for. The link
has done with all of it but what still waits there, and the relay was told of each message once, or twice if the link
reports everything twice. -/
theorem counters_agree (settings : LinkSettings) (c : Scene) (incidents : List Incident) (opens : c.Opens settings)
    (lawful : ∀ x ∈ incidents, x.Lawful) (kept : .move .dropRelay ∉ incidents) :
    ∃ r u, (c.undergo incidents).stack.hub.relay = some r ∧ (c.undergo incidents).stack.link = .uplink u ∧
      r.Agrees (c.offers incidents) settings.duplicates (c.undergo incidents).stack.hub.ledger u := by
  obtain ⟨r, u, relay, link, completed, duplicates⟩ := completions_counted settings c incidents opens lawful kept
  have conveys : u.Conveys (Manifest.addAll (c.passages incidents) {}) [] := by
    have linked := undergo_conveys incidents c {} (opens_conveys opens)
    rwa [link] at linked
  have tallied : c.stack.Tallied 0 {} := opens.built.elim fun b built => b.build_tallied c.stack built.2
  obtain ⟨⟨a, tallies⟩, -⟩ := undergo_tallied incidents c 0 {} lawful kept (opens_blank settings c opens).1
    (opens_requested settings c opens) tallied
  obtain rfl : r.account = a := by
    have known := tallies.known
    simpa only [Hub.register, relay, Option.map_some, Option.some.injEq] using known
  have waiting : u.tally.completed + u.queue.length = u.tally.accepted := by
    have order := congrArg List.length conveys.order
    have verdicts := List.length_eq_countP_add_countP (fun v : Outgoing × Bool => v.2)
      (l := (Manifest.addAll (c.passages incidents) {}).verdicts)
    simp only [List.append_nil, List.length_append, Manifest.sent, List.length_map, Fifo.length_toList] at order
    rw [LinkTally.completed, conveys.transmitted, conveys.failed,
      conveys.accepted]
    simp only [decide_not, Bool.decide_eq_true] at verdicts
    omega
  have accepted : r.tally.accepted = u.tally.accepted := tallies.accepted.trans conveys.accepted.symm
  refine ⟨r, u, relay, link, ?_, accepted, tallies.sent.symm, ?_, completed, ?_, duplicates⟩
  · exact (Nat.zero_add _).symm.trans tallies.calls
  · exact tallies.refused.trans conveys.rejected.symm
  · rw [completed, accepted]
    exact waiting

def dealings : List Incident :=
  let send (permissions : Permissions) (free : Option (FreeCallback Action)) : Incident :=
    .move (.act (.send ⟨"a", [7], 1, ⟨1⟩, permissions, free, false, none⟩))
  [.move (.act (.load 0 1 .none .plain)), .move (.take 0), .move (.finish 0), .move (.act (.grab 0 1 (some "a"))),
    send .none none, .move (.act (.uplink (.pump 1))), send .audio none, send .none (some ⟨"f", []⟩), .dropLoop 0,
    .move (.act .shutdown), send .none none]

theorem dealings_agree :
    small.Opens { duplicates := true } ∧ (∀ x ∈ dealings, x.Lawful) ∧ .move .dropRelay ∉ dealings ∧
      small.offers dealings = 4 ∧
      ∃ r u, (small.undergo dealings).stack.hub.relay = some r ∧ (small.undergo dealings).stack.link = .uplink u ∧
        r.Agrees 4 true (small.undergo dealings).stack.hub.ledger u ∧ r.tally.accepted = 2 := by
  have lawful : ∀ x ∈ dealings, x.Lawful := by simp [dealings, Incident.Lawful, Move.Lawful, Action.Lawful]
  have kept : .move .dropRelay ∉ dealings := by simp [dealings]
  have counted : small.offers dealings = 4 := by rfl
  obtain ⟨r, u, relay, link, agrees⟩ := counters_agree { duplicates := true } small dealings small_opens lawful kept
  rw [counted] at agrees
  refine ⟨small_opens, lawful, kept, counted, r, u, relay, link, agrees, ?_⟩
  have sold : (small.undergo dealings).stack.hub.relay.map (·.tally.accepted) = some 2 := by rfl
  rw [relay] at sold
  exact Option.some.inj sold

end Scene

end HubRelay
