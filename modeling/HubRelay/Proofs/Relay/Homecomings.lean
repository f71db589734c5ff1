import HubRelay.Proofs.Relay.Duplicates
import HubRelay.Proofs.Relay.HandBacks
import HubRelay.Proofs.Relay.Rotas

/-! Where payloads are handed back: on the loop that was its sender's home as the link was done with the message, by
the thread that drives that loop. -/

set_option autoImplicit false

namespace HubRelay

namespace Rota

structure Fits (rota : Rota) (b : Bearings) : Prop where
  acting : b.thread = rota.acting
  driver : ∀ (i : Nat) (owner : Option Thread), b.owners[i]? = some owner → owner = rota.driver i

theorem fits_after (x : Incident) (rota : Rota) (b : Bearings) (fits : rota.Fits b) : (rota.next x).Fits (b.after x) := by
  obtain ⟨acting, driver⟩ := fits
  cases x with
  | dropLoop i => exact ⟨acting, driver⟩
  | move m =>
      cases m with
      | turn thread => exact ⟨rfl, driver⟩
      | occupy i =>
          refine ⟨acting, fun j owner place => ?_⟩
          simp only [Bearings.after, List.getElem?_modify, Option.map_eq_map] at place
          obtain ⟨owner', here, rfl⟩ := Option.map_eq_some_iff.mp place
          simp only [next, ← acting, ← driver j owner' here]
      | _ => exact ⟨acting, driver⟩

end Rota

namespace Hub

def attending (h : Hub) : Bool := (h.loops.take h.registered).any (·.drivenBy h.thread)

structure DrivenAt (i : Nat) (h : Hub) : Prop where
  registered : i < h.registered
  driver : ∃ l, h.loops[i]? = some l ∧ l.owner = some h.thread

theorem driven_attending (i : Nat) (h : Hub) (driven : h.DrivenAt i) : h.attending = true := by
  obtain ⟨registered, l, here, owner⟩ := driven
  have known : (h.loops.take h.registered)[i]? = some l := by rw [List.getElem?_take, if_pos registered, here]
  exact List.any_eq_true.mpr ⟨l, List.mem_of_getElem? known, by rw [RunLoop.drivenBy, owner, beq_self_eq_true]⟩

end Hub

theorem Happening.unreturned_silent (x : Happening) (quiet : x.returns = false) : x.freeing? = none := by
  cases x with
  | freed => cases quiet
  | _ => rfl

namespace Scene

variable {size : Nat}

theorem meet_fits (x : Incident) (c : Scene) (rota : Rota) (heading : Heading x c) (fits : rota.Fits c.stack.hub.bearings) :
    (rota.next x).Fits (c.meet x).stack.hub.bearings := by
  cases heading with
  | onward news more homes =>
      obtain ⟨acting, driver⟩ := rota.fits_after x _ fits
      rw [more]
      exact ⟨acting, driver⟩
  | returned i n k callback payload next takes due more =>
      rw [more, takes]
      exact ⟨fits.acting, fits.driver⟩

theorem opening_fits (size : Nat) (c : Scene) (opening : c.Opening size) : ({} : Rota).Fits c.stack.hub.bearings := by
  obtain ⟨-, -, -, loops⟩ := opening_cases size c opening
  refine ⟨(opening_loops size c opening).2.2, fun i owner place => ?_⟩
  simp only [Hub.bearings, List.getElem?_map, Option.map_eq_some_iff] at place
  obtain ⟨l, here, rfl⟩ := place
  obtain ⟨settings, rfl⟩ := loops l (List.mem_of_getElem? here)
  rfl

def freeings (c : Scene) : List (Nat × FreeCallback Action × Payload) := c.stack.hub.history.filterMap Happening.freeing?

/-- The link is done with message `n`, of an app whose home is loop `i`: the payload is left to that loop. -/
structure Settles (n i : Nat) (x : Incident) (c : Scene) : Prop where
  pending : .completed n (.handed i) ∉ c.stack.hub.history
  left : .completed n (.handed i) ∈ (c.meet x).stack.hub.history
  home : ∃ badge d answer, .offered n badge d answer ∈ (c.meet x).stack.hub.history ∧
    ((∃ own, c.stack.hub.Hosts badge.app i own) ∨ i = 0 ∧ c.stack.hub.Nowhere badge.app)

theorem settles_heading (x : Incident) (c : Scene) (heading : Heading x c) (n i : Nat)
    (pending : .completed n (.handed i) ∉ c.stack.hub.history)
    (left : .completed n (.handed i) ∈ (c.meet x).stack.hub.history) : Settles n i x c := by
  have due : ∀ h : Hub, .completed n (.handed i) ∈ h.history ↔ .completed n (.handed i) ∈ h.bearings.returns := fun h =>
    ⟨fun member => List.mem_filter.mpr ⟨member, rfl⟩, fun member => (List.mem_filter.mp member).1⟩
  rw [due] at pending
  cases heading with
  | onward news more homes =>
      have member := (due _).mp left
      rw [more] at member
      rcases List.mem_append.mp member with new | old
      · obtain ⟨m, badge, d, answer, same, offered⟩ := homes _ new
        cases same
        refine ⟨mt (due _).mp pending, left, badge, d, answer, offered, ?_⟩
        exact c.stack.hub.home_hosts badge.app
      · exact absurd old pending
  | returned j m k callback payload next takes taken more =>
      have member := (due _).mp left
      rw [more] at member
      rcases List.mem_cons.mp member with same | old
      · cases same
      · exact absurd old pending

theorem settles_registered (n i : Nat) (x : Incident) (c : Scene) (settles : Settles n i x c) (some : 0 < c.stack.hub.registered) :
    i < c.stack.hub.registered := by
  obtain ⟨badge, d, answer, -, ⟨own, hosts⟩ | ⟨rfl, -⟩⟩ := settles.home
  · exact hosts.registered
  · exact some

theorem heading_freeings (x : Incident) (c : Scene) (heading : Heading x c) :
    (c.meet x).freeings = c.freeings ∨
      ∃ i n k callback payload next, x = .move (.take i) ∧
        c.stack.next? i = some (.job (.handBack k n callback payload), next) ∧
        (c.meet x).freeings = (n, callback, payload) :: c.freeings := by
  have told : ∀ c : Scene, c.freeings = c.stack.hub.bearings.returns.filterMap Happening.freeing? := by
    intro c
    rw [Hub.bearings, List.filterMap_filter]
    refine List.filterMap_congr fun y _ => ?_
    split
    · rfl
    · next quiet => exact y.unreturned_silent (by simpa using quiet)
  rw [told, told]
  cases heading with
  | onward news more homes =>
      left
      have silent : news.filterMap Happening.freeing? = [] := by
        refine List.filterMap_eq_nil_iff.mpr fun y member => ?_
        obtain ⟨n, badge, d, answer, rfl, -⟩ := homes y member
        rfl
      rw [more, List.filterMap_append, silent, List.nil_append]
  | returned i n k callback payload next takes due more =>
      refine .inr ⟨i, n, k, callback, payload, next, takes, due, ?_⟩
      rw [more]
      rfl

section Runs

variable (size) (c : Scene) (opening : c.Opening size)

include opening

theorem undergo_fits (incidents : List Incident) (honest : ∀ x ∈ incidents, x.Honest) :
    (({} : Rota).after incidents).Fits (c.undergo incidents).stack.hub.bearings := by
  induction incidents using List.reverseRecOn with
  | nil => exact opening_fits size c opening
  | append_singleton before x ih =>
      obtain ⟨earlier, -⟩ := List.forall_mem_append.mp honest
      rw [undergo_append, Rota.after_append]
      exact meet_fits x (c.undergo before) _ (undergo_heading size c opening before x earlier) (ih earlier)

theorem undergo_assigned (incidents : List Incident) (honest : ∀ x ∈ incidents, x.Honest) :
    ∃ asked lost, (((c.undergo incidents).custody asked).beside lost).Assigned := by
  obtain ⟨asked, lost, deals⟩ := undergo_deals incidents c [] 0 honest
  refine ⟨asked, lost, Custody.deals_assigned deals fun i k n callback payload member => ?_⟩
  rw [Custody.beside_none, opening_custody size c opening] at member
  exact absurd member (Multiset.notMem_zero _)

theorem handed_settled (incidents : List Incident) (honest : ∀ x ∈ incidents, x.Honest) (n i : Nat)
    (handed : .completed n (.handed i) ∈ (c.undergo incidents).stack.hub.history) :
    ∃ before x later, incidents = before ++ x :: later ∧ Settles n i x (c.undergo before) := by
  induction incidents using List.reverseRecOn with
  | nil =>
      rw [undergo, List.foldl_nil, (opening_cases size c opening).2.1] at handed
      exact absurd handed List.not_mem_nil
  | append_singleton before x ih =>
      obtain ⟨honest', -⟩ := List.forall_mem_append.mp honest
      by_cases old : .completed n (.handed i) ∈ (c.undergo before).stack.hub.history
      · obtain ⟨earlier, y, later, rfl, settles⟩ := ih honest' old
        exact ⟨earlier, y, later ++ [x], by rw [List.append_assoc, List.cons_append], settles⟩
      · rw [undergo_append] at handed
        exact ⟨before, x, [], rfl, settles_heading x _ (undergo_heading size c opening before x honest') n i old handed⟩

theorem due_settled (incidents : List Incident) (honest : ∀ x ∈ incidents, x.Honest) (i n : Nat) (k : Handle)
    (callback : FreeCallback Action) (payload : Payload) (next : Stack)
    (due : (c.undergo incidents).stack.next? i = some (.job (.handBack k n callback payload), next)) :
    ∃ before x later, incidents = before ++ x :: later ∧ Settles n i x (c.undergo before) := by
  obtain ⟨asked, lost, assigned⟩ := undergo_assigned size c opening incidents honest
  refine handed_settled size c opening incidents honest n i (assigned i k n callback payload ?_)
  rw [custody, Stack.next_custody i _ _ next due, Custody.beside, Task.errands_cons _ _ _ _ rfl, Multiset.add_cons]
  exact Multiset.mem_cons_self _ _

theorem due_driven (incidents : List Incident) (honest : ∀ x ∈ incidents, x.Honest) (i n : Nat) (k : Handle)
    (callback : FreeCallback Action) (payload : Payload) (next : Stack)
    (due : (c.undergo incidents).stack.next? i = some (.job (.handBack k n callback payload), next))
    (attended : (({} : Rota).after incidents).driver i = some (({} : Rota).after incidents).acting) :
    next.hub.DrivenAt i := by
  obtain ⟨before, x, later, rfl, settles⟩ := due_settled size c opening incidents honest i n k callback payload next due
  have kept := Stack.bearings_next i _ _ next due
  have registered : i < next.hub.registered := by
    obtain ⟨earlier, -⟩ := List.forall_mem_append.mp honest
    have known := (opening_loops size c opening).1
    rw [show c.stack.hub.registered = (c.undergo before).stack.hub.registered from
      (undergo_keeps size c opening before earlier).registered.symm] at known
    have same : next.hub.registered = (c.undergo before).stack.hub.registered :=
      (congrArg Bearings.registered kept).trans ((undergo_keeps size c opening _ honest).registered.trans
        (undergo_keeps size c opening before earlier).registered.symm)
    rw [same]
    exact settles_registered n i x _ settles known
  obtain ⟨l, queue, place, -, rfl⟩ := Stack.next_cases i _ _ next due
  have here := List.getElem?_set_self (a := { l with queue := queue }) (List.getElem?_eq_some_iff.mp place).1
  obtain ⟨acting, driver⟩ := undergo_fits size c opening _ honest
  rw [← kept] at acting driver
  refine ⟨registered, _, here, ?_⟩
  refine (driver i l.owner ?_).trans (attended.trans (congrArg some acting.symm))
  simp only [Hub.bearings, Stack.onHub, List.getElem?_map, here, Option.map_some]

end Runs

end Scene

def Step.Fair : Step → Prop
  | .act a => a.Tame
  | .runOnce _ | .runIdle _ | .run _ _ | .dropLoop _ | .dropRelay => True

theorem Move.lawful_honest (m : Move) (lawful : m.Lawful) : m.Honest := by
  cases m with
  | act a =>
      cases a with
      | post i e => exact lawful
      | _ => trivial
  | _ => trivial

namespace Stack

def shift (x : Thread × Step) (s : Stack) : Stack := ((s.asThread x.1).step x.2).2.haul

def shifts (xs : List (Thread × Step)) (s : Stack) : Stack := xs.foldl (fun s x => s.shift x) s

structure Passes (s s' : Stack) : Prop where
  undergone : ∀ rota : Rota, ∃ incidents, (∀ x ∈ incidents, x.Honest) ∧ rota.Attended incidents ∧
    (Scene.mk s []).undergo incidents = ⟨s', []⟩
  linked : s'.Linked
  tame : s'.Tame

theorem passes_refl (s : Stack) (linked : s.Linked) (tame : s.Tame) : s.Passes s :=
  ⟨fun _ => ⟨[], by simp, trivial, rfl⟩, linked, tame⟩

theorem passes_trans (s s' s'' : Stack) (first : s.Passes s') (later : s'.Passes s'') : s.Passes s'' := by
  refine ⟨fun rota => ?_, later.linked, later.tame⟩
  obtain ⟨incidents, honest, attended, reached⟩ := first.undergone rota
  obtain ⟨more, honest', attended', reached'⟩ := later.undergone (rota.after incidents)
  refine ⟨incidents ++ more, List.forall_mem_append.mpr ⟨honest, honest'⟩, (rota.attended_append _ _).mpr ⟨attended, attended'⟩, ?_⟩
  rw [Scene.undergo_append, reached, reached']

theorem passes_drives (s s' : Stack) (drives : s.Drives Move.Attended s') : s.Passes s' := by
  refine ⟨fun rota => ?_, drives.linked, drives.tame⟩
  obtain ⟨moves, lawful, -, attended, reached⟩ := drives.reaches []
  refine ⟨moves.map .move, fun x member => ?_, attended rota, ?_⟩
  · obtain ⟨m, listed, rfl⟩ := List.mem_map.mp member
    exact m.lawful_honest (lawful m listed)
  · rw [← reached, Scene.undergo, List.foldl_map]
    rfl

theorem passes_incident (x : Incident) (s s' : Stack) (honest : x.Honest) (idle : ∀ i, x ≠ .move (.take i))
    (met : (Scene.mk s []).meet x = ⟨s', []⟩) (linked : s'.Linked) (tame : s'.Tame) : s.Passes s' :=
  ⟨fun _ => ⟨[x], List.forall_mem_singleton.mpr honest, ⟨fun i taken => absurd taken (idle i), trivial⟩, met⟩, linked, tame⟩

theorem tame_dropRelay (h : Hub) (tame : h.Tame) : h.dropRelay.2.Tame := by
  obtain ⟨journal, dropped⟩ := h.dropRelay_cases
  rw [dropped]
  exact Hub.tame_view h _ tame rfl fun _ none => (nomatch none)

theorem passes_step (step : Step) (s : Stack) (fair : step.Fair) (linked : s.Linked) (tame : s.Tame) :
    s.Passes (s.step step).2 := by
  have driven : step.Tame → s.Passes (s.step step).2 := fun lawful => passes_drives s _ (drives_step step s lawful linked tame)
  cases step with
  | act a => exact driven fair
  | runOnce | runIdle | run => exact driven trivial
  | dropLoop i =>
      simp only [Stack.step, ifHeld]
      split
      · exact passes_refl s linked tame
      · split
        · exact passes_incident (.dropLoop i) s _ trivial (by simp) rfl linked (tame_dropLoop i s tame)
        · exact passes_refl s linked tame
  | dropRelay => exact passes_incident (.move .dropRelay) s _ trivial (by simp) rfl linked (tame_dropRelay s.hub tame)

theorem passes_shift (x : Thread × Step) (s : Stack) (fair : x.2.Fair) (linked : s.Linked) (tame : s.Tame) :
    s.Passes (s.shift x) := by
  have turned := passes_drives s _ (drives_turn x.1 s linked tame)
  have stepped := passes_step x.2 _ fair turned.linked turned.tame
  have hauled := passes_drives _ _ (drives_haul _ stepped.linked stepped.tame)
  exact passes_trans _ _ _ turned (passes_trans _ _ _ stepped hauled)

theorem passes_shifts (xs : List (Thread × Step)) (s : Stack) (fair : ∀ x ∈ xs, x.2.Fair) (linked : s.Linked)
    (tame : s.Tame) : s.Passes (s.shifts xs) := by
  induction xs generalizing s with
  | nil => exact passes_refl s linked tame
  | cons x rest ih =>
      have first := passes_shift x s (fair x List.mem_cons_self) linked tame
      exact passes_trans _ _ _ first (ih _ (fun y member => fair y (List.mem_cons_of_mem x member)) first.linked first.tame)

end Stack

namespace Scene

/-- A payload is handed back by one loop only, as that loop takes the task up: the loop that was its sender's home as the
link was done with the message. Whichever threads drive the loops, the relay then finds the acting thread among its loops'
drivers. What threads do that drive loops, in turn, one step or one drive at a time, is such a run. -/
theorem callback_at_home (size : Nat) (c : Scene) (opening : c.Opening size) :
    (∀ before x, (∀ y ∈ before ++ [x], y.Honest) → ({} : Rota).Attended (before ++ [x]) →
      (c.undergo (before ++ [x])).freeings = (c.undergo before).freeings ∨
        ∃ i n k callback payload next, x = .move (.take i) ∧
          (c.undergo before).stack.next? i = some (.job (.handBack k n callback payload), next) ∧
          (c.undergo (before ++ [x])).freeings = (n, callback, payload) :: (c.undergo before).freeings ∧
          (∃ earlier y later, before = earlier ++ y :: later ∧ Settles n i y (c.undergo earlier)) ∧
          next.hub.DrivenAt i ∧ next.hub.attending = true) ∧
      ∀ link xs, c.Opens link → (∀ x ∈ xs, x.2.Fair) →
        ∃ incidents, (∀ x ∈ incidents, x.Honest) ∧ ({} : Rota).Attended incidents ∧
          c.undergo incidents = ⟨c.stack.shifts xs, []⟩ := by
  refine ⟨fun before x honest attended => ?_, fun link xs opens fair => ?_⟩
  · obtain ⟨earlier, -⟩ := List.forall_mem_append.mp honest
    obtain ⟨-, here, -⟩ := (Rota.attended_append before [x] {}).mp attended
    rw [undergo_append]
    rcases heading_freeings x _ (undergo_heading size c opening before x earlier) with
      same | ⟨i, n, k, callback, payload, next, rfl, due, more⟩
    · exact .inl same
    · have driven := due_driven size c opening before earlier i n k callback payload next due (here i rfl)
      exact .inr ⟨i, n, k, callback, payload, next, rfl, due, more,
        due_settled size c opening before earlier i n k callback payload next due, driven, next.hub.driven_attending i driven⟩
  · obtain ⟨linked, tame⟩ := opens_tame link c opens
    have idle : c = ⟨c.stack, []⟩ := by rw [← opens.idle]
    rw [idle]
    exact (Stack.passes_shifts xs c.stack fair linked tame).undergone {}

def relayed : List Incident :=
  [.act (.load 1 1 .none .plain), .turn 5, .occupy 1, .take 1, .finish 0, .act (.grab 1 1 (some "a")),
    .act (.send ⟨"a", [7], 1, ⟨1⟩, .none, some ⟨"f", []⟩, false, none⟩), .act (.uplink (.pump 1)), .turn 7,
    .occupy 1].map .move

theorem relayed_called :
    paired.Opening 4 ∧ (∀ y ∈ relayed ++ [.move (.take 1)], y.Honest) ∧
      ({} : Rota).Attended (relayed ++ [.move (.take 1)]) ∧
      (∃ n k callback payload next, (paired.undergo relayed).stack.next? 1 = some (.job (.handBack k n callback payload), next) ∧
        (∃ earlier y later, relayed = earlier ++ y :: later ∧ Settles n 1 y (paired.undergo earlier)) ∧
        next.hub.DrivenAt 1 ∧ next.hub.attending = true) ∧
      ∃ incidents, ({} : Rota).Attended incidents ∧
        paired.undergo incidents = ⟨paired.stack.shifts [(5, .runIdle 1), (7, .run 1 true), (7, .dropLoop 0)], []⟩ := by
  have opening : paired.Opening 4 :=
    ⟨⟨⟨{ outstanding := 4 }, some (.uplink { settings := {} }), some {}, [{ eventCapacity := 1 }, {}], 2⟩, rfl, rfl⟩, rfl⟩
  have opens : paired.Opens {} :=
    ⟨⟨⟨{ outstanding := 4 }, some (.uplink { settings := {} }), some {}, [{ eventCapacity := 1 }, {}], 2⟩, rfl, rfl⟩, rfl⟩
  have honest : ∀ y ∈ relayed ++ [.move (.take 1)], y.Honest := by
    simp [relayed, Incident.Honest, Move.Honest, Action.Honest]
  have attended : ({} : Rota).Attended (relayed ++ [.move (.take 1)]) := by
    simp [relayed, Rota.Attended, Rota.next]
  obtain ⟨called, driven⟩ := callback_at_home 4 paired opening
  obtain ⟨incidents, -, kept, reached⟩ :=
    driven {} [(5, .runIdle 1), (7, .run 1 true), (7, .dropLoop 0)] opens (by simp [Step.Fair])
  refine ⟨opening, honest, attended, ?_, incidents, kept, reached⟩
  rcases called relayed (.move (.take 1)) honest attended with
    same | ⟨i, n, k, callback, payload, next, takes, due, -, settled, driven⟩
  · have one : (paired.undergo (relayed ++ [.move (.take 1)])).freeings.length = 1 := rfl
    rw [same] at one
    cases one
  · cases takes
    exact ⟨n, k, callback, payload, next, due, settled, driven⟩

end Scene

end HubRelay
