import HubRelay.Proofs.Link.Course

/-! What passes through a link, from the calls that offer it messages to the host that collects them. Which messages
fail is worked out from the passages alone, without a look at the link. -/

set_option autoImplicit false

namespace HubRelay

inductive Passage where
  | accepted (m : Outgoing)
  | refused
  -- So many more of the messages that are taken shall fail.
  | granted (count : UInt32)
  | taken (m : Outgoing)
  | closed (left : List Outgoing)
  -- The link is done with one of the messages that were left as it closed.
  | drained (m : Outgoing)
  | collected (log : List Delivery)

namespace Passage

def charge (sum : Nat) : Passage → Nat
  | .granted count => sum + count.toNat
  | .taken _ => sum - 1
  | _ => sum

-- How many of the messages taken next are to fail: the sum of what was granted, less one for each that was taken
-- while there was any left.
def outstanding (passages : List Passage) : Nat := passages.foldl charge 0

-- The sum never outgrew the word that the link keeps of it.
def Fits (passages : List Passage) : Prop := ∀ before, before <+: passages → outstanding before < UInt32.size

end Passage

structure Manifest where
  accepted : List Outgoing := []
  refused : Nat := 0
  -- The messages that were sent, and whether they failed.
  verdicts : List (Outgoing × Bool) := []
  -- What is outstanding, as far as a word holds it.
  budget : UInt32 := 0
  left : List Outgoing := []
  drained : List Outgoing := []
  collected : List Delivery := []

namespace Manifest

def add (b : Manifest) : Passage → Manifest
  | .accepted m => { b with accepted := b.accepted ++ [m] }
  | .refused => { b with refused := b.refused + 1 }
  | .granted count => { b with budget := b.budget + count }
  | .taken m =>
      { b with
        verdicts := b.verdicts ++ [(m, 0 < b.budget || m.message.toHost?.isNone)]
        budget := if 0 < b.budget then b.budget - 1 else b.budget }
  | .closed left => { b with left := b.left ++ left }
  | .drained m => { b with verdicts := b.verdicts ++ [(m, true)], drained := b.drained ++ [m] }
  | .collected log => { b with collected := b.collected ++ log }

def addAll (passages : List Passage) (b : Manifest) : Manifest := passages.foldl add b

theorem addAll_append (passages more : List Passage) (b : Manifest) :
    b.addAll (passages ++ more) = (b.addAll passages).addAll more :=
  List.foldl_append

def sent (b : Manifest) : List Outgoing := b.verdicts.map (·.1)

def due (b : Manifest) : List Delivery := b.verdicts.filterMap fun v => if v.2 then none else v.1.delivery?

end Manifest

namespace Uplink

structure Conveys (b : Manifest) (leaving : List Outgoing) (u : Uplink) : Prop where
  order : b.accepted = b.sent ++ leaving ++ u.queue.toList
  received : b.collected ++ u.received = b.due
  transmitted : u.tally.transmitted = b.verdicts.countP (!·.2)
  failed : u.tally.failed = b.verdicts.countP (·.2)
  accepted : u.tally.accepted = b.accepted.length
  rejected : u.tally.rejected = b.refused
  budget : u.failBudget = b.budget
  closing : b.left = b.drained ++ leaving
  shut : u.shutDown = true → u.queue.toList = []
  going : u.shutDown = false → leaving = []

structure Idles (u u' : Uplink) : Prop where
  queue : u'.queue = u.queue
  received : u'.received = u.received
  tally : u'.tally = u.tally
  budget : u'.failBudget = u.failBudget
  shut : u'.shutDown = u.shutDown

variable {b : Manifest} {leaving : List Outgoing} {u u' : Uplink}

theorem fresh_conveys (settings : LinkSettings) : Conveys {} [] { settings := settings } :=
  ⟨rfl, rfl, rfl, rfl, rfl, rfl, rfl, rfl, fun _ => rfl, fun _ => rfl⟩

theorem conveys_idle (conveys : u.Conveys b leaving) (idles : u.Idles u') : u'.Conveys b leaving := by
  obtain ⟨order, received, transmitted, failed, accepted, rejected, budget, closing, shut, going⟩ := conveys
  obtain ⟨queue', received', tally', budget', shut'⟩ := idles
  refine ⟨?_, ?_, ?_, ?_, ?_, ?_, ?_, closing, ?_, ?_⟩
  · rw [queue']
    exact order
  · rw [received']
    exact received
  · rw [tally']
    exact transmitted
  · rw [tally']
    exact failed
  · rw [tally']
    exact accepted
  · rw [tally']
    exact rejected
  · rw [budget']
    exact budget
  · rw [shut', queue']
    exact shut
  · rw [shut']
    exact going

theorem start_idles (started : u.start = .ok u') : u.Idles u' := by
  obtain rfl := start_ok started
  exact ⟨rfl, rfl, rfl, rfl, rfl⟩

theorem conveys_send (m : Outgoing) (conveys : u.Conveys b leaving) :
    (u.send m).2.Conveys (b.add (if (u.send m).1 then .accepted m else .refused)) leaving := by
  obtain ⟨order, received, transmitted, failed, accepted, rejected, budget, closing, shut, going⟩ := conveys
  unfold send
  split
  · exact ⟨order, received, transmitted, failed, accepted, by simp [Manifest.add, rejected], budget, closing, shut, going⟩
  · next room =>
      have opened : u.shutDown = false := by
        cases flag : u.shutDown with
        | false => rfl
        | true => exact absurd (by rw [flag]; rfl) room
      refine ⟨?_, received, transmitted, failed, by simp [Manifest.add, accepted], rejected, budget, closing, ?_, going⟩
      · simp only [if_true, Manifest.add, Fifo.toList_push, order, Manifest.sent, List.append_assoc]
      · intro closed
        rw [opened] at closed
        cases closed

theorem take_moved (m : Outgoing) (fails : Bool) (taken : u.take? = some (m, fails, u')) :
    fails = decide (0 < u.failBudget) ∧
      u'.failBudget = (if 0 < u.failBudget then u.failBudget - 1 else u.failBudget) ∧ u'.received = u.received ∧
      u'.paused = u.paused := by
  obtain ⟨queue, -, rfl, -, rfl⟩ := take_eq taken
  exact ⟨rfl, rfl, rfl, rfl⟩

theorem record_verdict (m : Outgoing) (fails : Bool) (u : Uplink) :
    (u.record m fails).received = u.received ++
        (if fails || m.message.toHost?.isNone then none else m.delivery?).toList ∧
      (u.record m fails).tally = { u.tally with
        transmitted := u.tally.transmitted + if fails || m.message.toHost?.isNone then 0 else 1
        failed := u.tally.failed + if fails || m.message.toHost?.isNone then 1 else 0 } ∧
      (u.record m fails).failBudget = u.failBudget := by
  unfold record Outgoing.delivery?
  cases fails <;> cases m.message.toHost? <;> simp

theorem conveys_verdict (m : Outgoing) (fails failed : Bool) (b' : Manifest) (conveys : u.Conveys b leaving)
    (received : u'.received = u.received) (tally : u'.tally = u.tally)
    (verdict : failed = (fails || m.message.toHost?.isNone)) (verdicts : b'.verdicts = b.verdicts ++ [(m, failed)])
    (collected : b'.collected = b.collected) :
    b'.collected ++ (u'.record m fails).received = b'.due ∧
      (u'.record m fails).tally.transmitted = b'.verdicts.countP (!·.2) ∧
      (u'.record m fails).tally.failed = b'.verdicts.countP (·.2) ∧
      (u'.record m fails).tally.accepted = b.accepted.length ∧ (u'.record m fails).tally.rejected = b.refused := by
  obtain ⟨received', tally', -⟩ := u'.record_verdict m fails
  rw [← verdict] at received' tally'
  rw [received', tally', verdicts, Manifest.due, verdicts, collected, ← List.append_assoc, received, conveys.received,
    Manifest.due, tally]
  refine ⟨?_, ?_, ?_, conveys.accepted, conveys.rejected⟩
  · cases failed <;> cases delivered : m.delivery? <;> simp [delivered]
  · cases failed <;> simp [conveys.transmitted]
  · cases failed <;> simp [conveys.failed]

theorem conveys_take (m : Outgoing) (fails : Bool) (conveys : u.Conveys b leaving)
    (taken : u.take? = some (m, fails, u')) : (u'.record m fails).Conveys (b.add (.taken m)) leaving := by
  obtain ⟨queue, -, tally, shut, -⟩ := take_some taken
  obtain ⟨fails', budget, received, -⟩ := take_moved m fails taken
  have opened : u.shutDown = false := by
    cases flag : u.shutDown with
    | false => rfl
    | true =>
        have empty := conveys.shut flag
        rw [queue] at empty
        cases empty
  have idle := conveys.going opened
  subst idle
  have verdict : (decide (0 < b.budget) || m.message.toHost?.isNone) = (fails || m.message.toHost?.isNone) := by
    rw [fails', conveys.budget]
  obtain ⟨received', transmitted, failed, accepted, rejected⟩ :=
    conveys_verdict m fails _ (b.add (.taken m)) conveys received tally verdict rfl rfl
  refine ⟨?_, received', transmitted, failed, accepted, rejected, ?_, conveys.closing, ?_, fun _ => rfl⟩
  · rw [record_queue]
    simp [Manifest.add, Manifest.sent, conveys.order, queue]
  · rw [(u'.record_verdict m fails).2.2, budget, conveys.budget]
    rfl
  · rw [record_shut_down, shut, opened]
    nofun

theorem conveys_drain (m : Outgoing) (conveys : u.Conveys b (m :: leaving)) :
    (u.record m true).Conveys (b.add (.drained m)) leaving := by
  have shut : u.shutDown = true := by
    cases flag : u.shutDown with
    | true => rfl
    | false => cases conveys.going flag
  obtain ⟨received, transmitted, failed, accepted, rejected⟩ :=
    conveys_verdict m true true (b.add (.drained m)) conveys rfl rfl rfl rfl rfl
  refine ⟨?_, received, transmitted, failed, accepted, rejected, ?_, ?_, ?_, ?_⟩
  · rw [record_queue]
    simp [Manifest.add, Manifest.sent, conveys.order]
  · rw [(u.record_verdict m true).2.2]
    exact conveys.budget
  · simp [Manifest.add, conveys.closing]
  · rw [record_queue]
    exact fun _ => conveys.shut shut
  · rw [record_shut_down, shut]
    nofun

theorem conveys_close (conveys : u.Conveys b leaving) :
    u.close.takeAll.2.Conveys (b.add (.closed u.queue.toList)) (leaving ++ u.queue.toList) := by
  obtain ⟨order, received, transmitted, failed, accepted, rejected, budget, closing, -, -⟩ := conveys
  refine ⟨?_, received, transmitted, failed, accepted, rejected, budget, ?_, fun _ => rfl, nofun⟩
  · simp [Manifest.add, Manifest.sent, order, takeAll]
  · simp [Manifest.add, closing]

theorem conveys_grant (count : UInt32) (conveys : u.Conveys b leaving) :
    (u.failNext count).Conveys (b.add (.granted count)) leaving := by
  obtain ⟨order, received, transmitted, failed, accepted, rejected, budget, closing, shut, going⟩ := conveys
  exact ⟨order, received, transmitted, failed, accepted, rejected, congrArg (· + count) budget, closing, shut, going⟩

theorem conveys_collect (conveys : u.Conveys b leaving) :
    u.takeReceived.2.Conveys (b.add (.collected u.takeReceived.1)) leaving := by
  obtain ⟨order, received, transmitted, failed, accepted, rejected, budget, closing, shut, going⟩ := conveys
  exact ⟨order, (List.append_nil _).trans received, transmitted, failed, accepted, rejected, budget, closing, shut, going⟩

end Uplink

namespace Frame

def leaving : Frame → List Outgoing
  | .failAll _ messages => messages
  | _ => []

end Frame

namespace Reply

def agrees : Reply → Bool
  | .flag value => value
  | _ => false

def log : Reply → List Delivery
  | .received log => log
  | _ => []

end Reply

namespace Rig

def takes (r : Rig) : List Passage := r.link.take?.toList.map fun x => .taken x.1

theorem takes_none {r : Rig} (none : r.link.take? = none) : r.takes = [] := by
  simp [takes, none]

theorem takes_some {r : Rig} {m : Outgoing} {fails : Bool} {link : Uplink} (taken : r.link.take? = some (m, fails, link)) :
    r.takes = [.taken m] := by
  simp [takes, taken]

def passes (f : Frame) (r : Rig) : List Passage :=
  match f with
  | .call (.send m) => [if (r.call (.send m)).2.reply.agrees then .accepted m else .refused]
  | .call (.uplink (.spoil count)) => [.granted count]
  | .call (.uplink .takeReceived) => [.collected (r.call (.uplink .takeReceived)).2.reply.log]
  | .pump (_ + 1) _ => r.takes
  | .haul => if r.link.running then r.takes else []
  | .close => [.closed r.link.queue.toList]
  | .failAll _ (m :: _) => [.drained m]
  | _ => []

end Rig

namespace Course

def passes (t : Turn) (c : Course) : List Passage :=
  match t, c.agenda with
  | .step, f :: _ => c.rig.passes f
  | _, _ => []

def passages : List Turn → Course → List Passage
  | [], _ => []
  | t :: rest, c => c.passes t ++ passages rest (c.turn t)

def leaving (c : Course) : List Outgoing := c.agenda.flatMap Frame.leaving

end Course

end HubRelay
