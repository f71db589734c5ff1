import HubRelay.Proofs.Relay.Homecomings
import HubRelay.Proofs.Relay.Issuance

/-! When handles tell messages apart. Where the link alone completes messages, whatever waits or is under way owns its
slot, tasks of loops that were let go included. Anyone else may free a slot early, and then a handle is that of one
message only until a slot's generations come round. -/

set_option autoImplicit false

namespace HubRelay

theorem Incident.lawful_honest (x : Incident) (lawful : x.Lawful) : x.Honest ∧ ¬x.Retries := by
  cases x with
  | dropLoop i => exact ⟨trivial, id⟩
  | move m =>
      refine ⟨m.lawful_honest lawful, fun retries => ?_⟩
      cases m with
      | act a =>
          cases a with
          | retry r => exact lawful
          | _ => exact retries
      | _ => exact retries

namespace Traffic

variable {past : Hub} {t t' : Traffic}

def beside (lost : Multiset (Nat × Errand)) (t : Traffic) : Traffic := { t with errands := lost + t.errands }

theorem change_beside (lost : Multiset (Nat × Errand)) (change : Change past t t') :
    Change past (t.beside lost) (t'.beside lost) := by
  have gain : ∀ (x : Nat × Errand) (es : Multiset (Nat × Errand)), lost + x ::ₘ es = x ::ₘ (lost + es) :=
    fun x es => Multiset.add_cons x lost es
  have owed : ∀ (x : Nat × Errand) es, t.errands = x ::ₘ es → (t.beside lost).errands = x ::ₘ (lost + es) := by
    intro x es work
    rw [beside, work]
    exact gain x es
  cases change with
  | narrow known within => exact .narrow known within
  | remark x idle => exact .remark x idle
  | shut i d place => exact .shut i d place
  | detach i d place stopped => exact .detach i d place stopped
  | request i d badge known place issued within => exact .request i d badge known place issued within
  | bounce p next parcel k alive allocated => exact .bounce p next parcel k alive allocated
  | refuse badge d failure payload alive => exact .refuse badge d failure payload alive
  | accept badge d woke p next k alive allocated => exact .accept badge d woke p next k alive allocated
  | lose m w waits gone => exact .lose m w waits gone
  | release m w p parcel waits alive live silent => exact .release m w p parcel waits alive live silent
  | abandon m w p parcel callback i waits alive live heard home closed =>
      exact .abandon m w p parcel callback i waits alive live heard home closed
  | turnDown a failure alive => exact .turnDown a failure alive
  | hand m w p parcel callback i waits alive live heard home =>
      simp only [beside, gain]
      exact .hand (t := t.beside lost) m w p parcel callback i waits alive live heard home
  | deliver a p next k i badge alive allocated located known =>
      simp only [beside, gain]
      exact .deliver (t := t.beside lost) a p next k i badge alive allocated located known
  | putOff a p next k alive allocated =>
      simp only [beside, gain]
      exact .putOff (t := t.beside lost) a p next k alive allocated
  | repost j n k es p parcel i badge work alive live located known =>
      simp only [beside, gain]
      exact .repost (t := t.beside lost) j n k (lost + es) p parcel i badge (owed _ es work) alive live located known
  | stray j n k es p parcel work alive live nowhere =>
      exact .stray (t := t.beside lost) j n k (lost + es) p parcel (owed _ es work) alive live nowhere
  | turnAway j n k es p parcel i badge l work alive live located place refuses =>
      exact .turnAway (t := t.beside lost) j n k (lost + es) p parcel i badge l (owed _ es work) alive live located place refuses
  | fizzle j n k es work gone => exact .fizzle (t := t.beside lost) j n k (lost + es) (owed _ es work) gone
  | free i n k callback payload es work =>
      simp only [beside, gain]
      exact .free (t := t.beside lost) i n k callback payload (lost + es) (owed _ es work)
  | pass i n k e badge es work bears known aimed =>
      simp only [beside, gain]
      exact .pass (t := t.beside lost) i n k e badge (lost + es) (owed _ es work) bears known aimed
  | miss i n k e x es work bears drops => exact .miss (t := t.beside lost) i n k e x (lost + es) (owed _ es work) bears drops
  | finish i k x es work ends => exact .finish (t := t.beside lost) i k x (lost + es) (owed _ es work) ends

theorem owned_ended (i : Nat) (x : Errand) (es : Multiset (Nat × Errand)) (owned : t.Owned) (work : t.errands = (i, x) ::ₘ es) :
    ({ t with pool := t.pool.map (·.reclaimed x.holding.1), errands := es } : Traffic).Owned := by
  intro q alive'
  obtain ⟨p, alive, rfl⟩ := Option.map_eq_some_iff.mp alive'
  have holders := errand_holds t i x es work
  obtain ⟨v, member, -⟩ := owned_slot t p x.holding.1 x.holding.2 owned alive (by rw [holders]; exact Multiset.mem_cons_self _ _)
  obtain ⟨sound, vacated⟩ := SlotPool.reclaimed_cases x.holding.1 p v (owned p alive).1 member
  exact ⟨sound, owned_vacated t p _ x.holding.1 v x.holding.2 _ owned alive member holders vacated⟩

end Traffic

variable {hand : List (Nat × Epilogue)} {waiting : Multiset Outgoing}

namespace Hub

theorem discardTask_owned (i : Nat) (t : Task) (h : Hub) :
    ∃ left, ∀ lost, ((h.traffic waiting hand).beside (t.errands i + lost)).Owned →
      (((h.discardTask t).traffic waiting hand).beside (left + lost)).Owned := by
  cases t with
  | event e =>
      rcases event_cases e with ⟨k, n, bears⟩ | ⟨-, errand, -, same⟩
      · have hook : e.hook = some (.reclaim k n) := bears
        refine ⟨0, fun lost owned => ?_⟩
        have work : ((h.traffic waiting hand).beside ((Task.event e).errands i + lost)).errands =
            (i, .event k n e) ::ₘ (lost + (h.traffic waiting hand).errands) := by
          rw [Traffic.beside, Task.errands, (bears_errand k n e bears).1, add_assoc]
          rfl
        have left := Traffic.owned_ended i (.event k n e) _ owned work
        simp only [discardTask, discard, hook, traffic_reclaim, zero_add]
        exact left
      · refine ⟨(Task.event e).errands i, fun lost owned => ?_⟩
        rw [discardTask, same]
        exact owned
  | job j => cases j <;> exact ⟨_, fun lost owned => owned⟩
  | load | unload | stop => exact ⟨_, fun lost owned => owned⟩

theorem discarded_owned (i : Nat) (tasks : List Task) (h : Hub) (lost : Multiset (Nat × Errand))
    (owned : ((h.traffic waiting hand).beside (Task.allErrands i tasks + lost)).Owned) :
    ∃ more, (((tasks.foldl (fun h t => h.discardTask t) h).traffic waiting hand).beside more).Owned := by
  induction tasks generalizing h lost with
  | nil => exact ⟨_, owned⟩
  | cons t rest ih =>
      obtain ⟨left, first⟩ := @discardTask_owned hand waiting i t h
      rw [Task.allErrands_cons, add_assoc] at owned
      refine ih (h.discardTask t) (left + lost) ?_
      rw [add_left_comm]
      exact first _ owned

end Hub

namespace Stack

theorem dropLoop_owned (i : Nat) (s : Stack) (lost : Multiset (Nat × Errand)) (owned : ((s.traffic hand).beside lost).Owned) :
    ∃ more, (((s.dropLoop i).traffic hand).beside more).Owned := by
  rcases s.hub.modify_cases i fun l => { l with queue := .empty, apps := [], attached := false } with
    ⟨absent, same⟩ | ⟨l, place, change⟩
  · have dropped : (s.dropLoop i).traffic hand = s.traffic hand := by
      simp only [dropLoop, loop?, absent, modifyLoop, onHub, same]
      rfl
    rw [dropped]
    exact ⟨lost, owned⟩
  · have emptied := @Hub.discarded_owned hand s.link.waiting i l.queue.toList
      (s.hub.modifyLoop i fun l => { l with queue := .empty, apps := [], attached := false }) lost
    have owed := gather_set_less RunLoop.errands s.hub.loops i l { l with queue := .empty, apps := [], attached := false }
      (Task.allErrands i l.queue.toList) place (add_zero _).symm
    simp only [dropLoop, loop?, place, modifyLoop, onHub]
    refine emptied ?_
    -- What was queued there is lost, and the slots are owned as before.
    intro p alive
    obtain ⟨sound, holds⟩ := owned p alive
    refine ⟨sound, holds.trans ?_⟩
    rw [change]
    simp only [Traffic.holders, Traffic.beside, traffic, Hub.traffic, owed]
    congr 2
    ac_rfl

end Stack

namespace Scene

theorem meet_owned (x : Incident) (c : Scene) (lost : Multiset (Nat × Errand)) (lawful : x.Lawful) (linked : c.stack.Linked)
    (owned : (c.traffic.beside lost).Owned) :
    (c.meet x).stack.Linked ∧ ∃ more, ((c.meet x).traffic.beside more).Owned := by
  cases x with
  | dropLoop i => exact ⟨linked, c.stack.dropLoop_owned i lost owned⟩
  | move m =>
      obtain ⟨linked', change⟩ := move_follows m c lawful linked
      refine ⟨linked', lost, ?_⟩
      rcases change with follows | ⟨-, bereft⟩
      · exact follows_invariant _ _ _ (fun t => (t.beside lost).Owned) follows owned fun t t' change =>
          Traffic.change_owned _ _ _ (Traffic.change_beside lost change)
      · change (((c.move m).traffic).beside lost).Owned
        rw [bereft]
        intro p alive
        cases alive

theorem undergo_owned (link : LinkSettings) (incidents : List Incident) (c : Scene) (opens : c.Opens link)
    (lawful : ∀ x ∈ incidents, x.Lawful) :
    (c.undergo incidents).stack.Linked ∧ ∃ lost, ((c.undergo incidents).traffic.beside lost).Owned := by
  refine undergo_invariant (fun c => c.stack.Linked ∧ ∃ lost, (c.traffic.beside lost).Owned) Incident.Lawful
    (fun x c lawful held => ?_) incidents c lawful ?_
  · obtain ⟨linked, lost, owned⟩ := held
    exact meet_owned x c lost lawful linked owned
  · obtain ⟨linked, blank⟩ := opens_blank link c opens
    refine ⟨linked, 0, ?_⟩
    rw [Traffic.beside, zero_add]
    exact (Traffic.blank_sound _ blank).owned

end Scene

namespace Hub

theorem mem_work (h : Hub) (i : Nat) (x : Errand) (member : x ∈ h.work i) : (i, x) ∈ gather RunLoop.errands h.loops := by
  cases place : h.loops[i]? with
  | none =>
      rw [work, place] at member
      exact absurd member List.not_mem_nil
  | some l =>
      rw [(h.place_work i l place).1] at member
      exact (mem_gather _ _ _).mpr ⟨i, l, place, Multiset.mem_coe.mpr (List.mem_map_of_mem member)⟩

theorem owned_clear (h : Hub) (u : Uplink) (lost : Multiset (Nat × Errand))
    (owned : ((h.traffic u.queue.toList hand).beside lost).Owned) : h.Clear u.line where
  sound r relay := (owned r.pool (by simp only [Traffic.beside, traffic, relay, Option.map_some])).1
  named i k n m queued number := by
    obtain ⟨parcel, live, rfl⟩ := Option.map_eq_some_iff.mp number
    obtain ⟨r, relay, lives⟩ := Option.bind_eq_some_iff.mp live
    have listed : (i, .retry k n) ∈ ((h.traffic u.queue.toList hand).beside lost).errands :=
      Multiset.mem_add.mpr (.inr (Multiset.mem_add.mpr (.inr (mem_work h i _ queued))))
    obtain ⟨es, work⟩ := Multiset.exists_cons_of_mem listed
    exact (Traffic.retry_serial _ r.pool i n k es parcel owned (by simp only [Traffic.beside, traffic, relay, Option.map_some])
      work lives).2
  fresh r parcel k pool relay allocated waits := by
    have alive : ((h.traffic u.queue.toList hand).beside lost).pool = some r.pool := by
      simp only [Traffic.beside, traffic, relay, Option.map_some]
    obtain ⟨m, member, rfl⟩ := List.mem_map.mp waits
    obtain ⟨w, split⟩ := Multiset.exists_cons_of_mem (Multiset.mem_coe.mpr member)
    obtain ⟨own, lives⟩ := Traffic.owned_message _ r.pool m w owned alive split
    obtain ⟨vacant, -⟩ := SlotPool.allocated_live parcel r.pool pool m.handle m.handle (owned r.pool alive).1 allocated
    rw [vacant] at lives
    cases lives

theorem marked_clear (size : Nat) (h : Hub) (asked : List Parcel) (lost : Multiset (Nat × Errand)) (line : List Handle)
    (sound : ((h.custody hand asked none).beside lost).Sound size) (marked : ((h.custody hand asked none).beside lost).Marked)
    (lent : ∀ r, h.relay = some r → ∀ k ∈ line, r.pool.Lent k) : h.Clear line where
  sound r relay := (sound.housed r.pool (by simp only [Custody.beside, custody, relay, Option.map_some])).1
  named i k n m queued number := by
    obtain ⟨parcel, live, rfl⟩ := Option.map_eq_some_iff.mp number
    have listed : (i, .retry k n) ∈ ((h.custody hand asked none).beside lost).errands :=
      Multiset.mem_add.mpr (.inr (Multiset.mem_add.mpr (.inr (mem_work h i _ queued))))
    exact (Option.some.inj (marked.named i _ parcel listed ((live_custody hand asked none k h).trans live))).symm
  fresh r parcel k pool relay allocated waits := by
    obtain ⟨own, -⟩ := sound.housed r.pool (by simp only [Custody.beside, custody, relay, Option.map_some])
    exact SlotPool.lent_apart parcel r.pool pool k k own allocated (lent r relay k waits) rfl

end Hub

namespace Scene

def Clear (incidents : List Incident) (c : Scene) : Prop :=
  ∀ before, before <+: incidents →
    (c.undergo before).stack.Linked ∧ (c.undergo before).stack.hub.Clear (c.undergo before).stack.link.line

theorem lawful_clear (link : LinkSettings) (incidents : List Incident) (c : Scene) (opens : c.Opens link)
    (lawful : ∀ x ∈ incidents, x.Lawful) : c.Clear incidents := by
  intro before first
  obtain ⟨⟨u, linked⟩, lost, owned⟩ := undergo_owned link before c opens fun x member => lawful x (first.subset member)
  refine ⟨⟨u, linked⟩, ?_⟩
  rw [traffic, linked] at owned
  rw [linked]
  exact Hub.owned_clear _ u lost owned

theorem opens_opening (link : LinkSettings) (c : Scene) (opens : c.Opens link) : ∃ size, c.Opening size := by
  obtain ⟨⟨b, -, built⟩, idle⟩ := opens
  exact ⟨b.settings.outstanding, ⟨b, rfl, built⟩, idle⟩

-- Fewer messages got slots than a slot has generations.
def Few (c : Scene) : Prop := (c.stack.hub.history.filterMap Happening.took?).length < generations

theorem few_clear (link : LinkSettings) (incidents : List Incident) (c : Scene) (opens : c.Opens link)
    (honest : ∀ x ∈ incidents, x.Honest) (few : (c.undergo incidents).Few) : c.Clear incidents := by
  rintro before ⟨after, rfl⟩
  obtain ⟨early, late⟩ := List.forall_mem_append.mp honest
  have linked : (c.undergo before).stack.Linked := by
    have conveys := undergo_conveys before c {} (opens_conveys opens)
    cases here : (c.undergo before).stack.link with
    | uplink u => exact ⟨u, here⟩
    | puppet p =>
        rw [here] at conveys
        exact conveys.elim
  obtain ⟨size, opening⟩ := opens_opening link c opens
  obtain ⟨asked, lost, first⟩ := undergo_deals before c [] 0 early
  obtain ⟨asked', more, later⟩ := undergo_deals after (c.undergo before) asked lost late
  rw [Custody.beside_none] at first
  have sound := opening_sound size c opening
  have few' : (((c.undergo before).custody asked).beside lost).Few := by
    refine Custody.deals_few later ?_
    rw [← undergo_append]
    exact few
  have tracked := Custody.deals_tracked first sound few' (opening_tracked size c opening)
  have bidden := Custody.deals_bidden first sound few' (opening_bidden size c opening)
  refine ⟨linked, Hub.marked_clear size _ asked lost _ (Custody.deals_sound first sound) tracked.marked fun r relay k waits => ?_⟩
  obtain ⟨u, wired⟩ := linked
  have took := undergo_took link before c opens early
  rw [wired] at took waits
  obtain ⟨m, member, rfl⟩ := List.mem_map.mp waits
  obtain ⟨n, badge, d, offered⟩ := took.1 m member
  refine bidden.sent r.pool n badge d m.handle ?_ offered
  simp only [Custody.beside, custody, Hub.custody, relay, Option.map_some]

-- Nobody but the link completes the message.
def LeftToLink (n : Nat) : List Incident → Scene → Prop
  | [], _ => True
  | x :: rest, c => x.completes? c ≠ some n ∧ LeftToLink n rest (c.meet x)

instance decidableLeft (n : Nat) : (incidents : List Incident) → (c : Scene) → Decidable (c.LeftToLink n incidents)
  | [], _ => inferInstanceAs (Decidable True)
  | x :: rest, c =>
      have := decidableLeft n rest (c.meet x)
      inferInstanceAs (Decidable (x.completes? c ≠ some n ∧ (c.meet x).LeftToLink n rest))

theorem undergo_advances (left : Nat → Prop) (loose : Prop) (incidents : List Incident) (c : Scene) (clear : c.Clear incidents)
    (allowed : ∀ x ∈ incidents, x.Honest ∧ (x.Retries → loose)) (spared : ∀ n, left n → c.LeftToLink n incidents) :
    Docket.Advances left loose c.stack.docket (c.undergo incidents).stack.docket := by
  induction incidents generalizing c with
  | nil => exact .refl
  | cons x rest ih =>
      obtain ⟨honest, unasked⟩ := allowed x List.mem_cons_self
      obtain ⟨linked, tells⟩ := clear [] List.nil_prefix
      refine (meet_advances x c honest unasked (fun n completes own => (spared n own).1 completes) linked tells).trans
        (ih (c.meet x) (fun before first => ?_) (fun y member => allowed y (List.mem_cons_of_mem x member)) fun n own =>
          (spared n own).2)
      exact clear (x :: before) (List.cons_prefix_cons.mpr ⟨rfl, first⟩)

end Scene

end HubRelay
