import HubRelay.Proofs.Relay.Registers

/-! What of a stack bears on wake cycles: whether the current one is claimed, and the cycles that each nanoapp
answers for. Sends, suspends and resets by hand change it, and the loss of the relay. Nothing else does. -/

set_option autoImplicit false

namespace HubRelay

structure Vigil where
  -- Is `none` once the relay was dropped.
  claim : Option WakeClaim
  rows : List (Nat × Usage)

namespace Hub

def vigil (h : Hub) : Vigil := ⟨h.relay.map (·.wakeClaim), h.ledger.rows⟩

theorem vigil_register (past h : Hub) (same : h.register = past.register) : h.vigil = past.vigil := by
  have claims : ∀ g : Hub, g.register.account.map (·.claim) = g.relay.map (·.wakeClaim) := by
    intro g
    simp only [register, Option.map_map]
    rfl
  have rows : h.ledger = past.ledger := congrArg Register.ledger same
  rw [vigil, vigil, ← claims h, ← claims past, same, rows]

theorem vigil_onRelay (h : Hub) (f : Relay → Relay) (keeps : ∀ r, (f r).wakeClaim = r.wakeClaim) :
    (h.onRelay f).vigil = h.vigil := by
  unfold vigil onRelay
  cases h.relay with
  | none => rfl
  | some r => simp only [Option.map_some, keeps]

theorem vigil_count (h : Hub) (f : RelayTally → RelayTally) : (h.count f).vigil = h.vigil :=
  vigil_onRelay h _ fun _ => rfl

theorem vigil_passSerial (h : Hub) : h.passSerial.vigil = h.vigil := vigil_onRelay h _ fun _ => rfl

theorem vigil_noteDropped (h : Hub) (callback : Option (FreeCallback Action)) :
    (h.noteDropped callback).vigil = h.vigil :=
  vigil_register h _ (register_noteDropped h callback)

theorem vigil_reclaim (h : Hub) (k : Handle) : (h.reclaim k).vigil = h.vigil :=
  vigil_register h _ (register_reclaim h k)

theorem vigil_lent (h : Hub) (pool : SlotPool Parcel) (r : Relay) (relay : h.relay = some r) :
    (h.lent pool r).vigil = h.vigil :=
  vigil_register h _ (register_lent h pool r relay)

theorem vigil_complete (k : Handle) (h : Hub) : (h.complete k).vigil = h.vigil :=
  vigil_register h _ (register_complete k h)

theorem vigil_requestLoad (h : Hub) (i : Nat) (app : AppId) (permissions : Permissions) (program : Program Action) :
    (h.requestLoad i app permissions program).2.vigil = h.vigil := by
  cases place : h.loops[i]? with
  | none => simp only [requestLoad, place]
  | some l =>
      obtain ⟨next, -, -, -, requested⟩ := requestLoad_cases h i app permissions program l place
      rw [requested]
      rfl

theorem vigil_requestLoads (h : Hub) (i count : Nat) (app : AppId) (last : Reply) :
    (h.requestLoads i count app last).2.vigil = h.vigil := by
  induction count generalizing h app last with
  | zero => rfl
  | succ count ih => exact (ih _ _ _).trans (vigil_requestLoad h i app Permissions.none .inert)

end Hub

def Action.IsAsideWake : Action → Prop
  | .send _ | .resetClaim | .suspend | .wake => False
  | _ => True

namespace Stack

def watch (s : Stack) : Vigil × HostPower Unit := (s.hub.vigil, s.power)

theorem watch_books (past s : Stack) (same : s.books = past.books) : s.watch = past.watch :=
  Prod.ext (Hub.vigil_register past.hub s.hub (congrArg Books.register same)) (congrArg Books.power same)

theorem watch_ifLoop (i : Nat) (f : RunLoop → Reply × Stack) (s : Stack) (each : ∀ l, (f l).2.watch = s.watch) :
    (s.ifLoop i f).2.watch = s.watch :=
  s.ifLoop_keeps (·.watch = s.watch) i f rfl fun l _ => each l

theorem watch_act (a : Action) (s : Stack) (aside : a.IsAsideWake) : (s.act a).2.watch = s.watch := by
  have kept : a.IsAsideRegister → (s.act a).2.watch = s.watch := fun apart => watch_books s _ (books_act a s apart)
  cases a with
  | send | resetClaim | suspend | wake => exact aside.elim
  | load i app permissions program =>
      exact watch_ifLoop i _ s fun _ => Prod.ext (Hub.vigil_requestLoad s.hub i app permissions program) rfl
  | loadMany i app count =>
      exact watch_ifLoop i _ s fun _ => Prod.ext (Hub.vigil_requestLoads s.hub i count app .done) rfl
  | grab i app name =>
      refine watch_ifLoop i _ s fun _ => ?_
      split <;> rfl
  | enrol name app inst permissions => rfl
  | unload | find | post | defer | stop | complete | retry | deliver | shutdown | flush | uplink | puppet | malformed =>
      exact kept trivial

end Stack

namespace Scene

theorem watch_move (m : Move) (c : Scene) (quiet : ∀ a, m = .act a → a.IsAsideWake) (kept : m ≠ .dropRelay) :
    (c.move m).stack.watch = c.stack.watch := by
  have written : (∀ a, m ≠ .act a) → (c.move m).stack.watch = c.stack.watch := fun apart =>
    Stack.watch_books c.stack _ (books_move m c (fun a same => absurd same (apart a)) kept)
  cases m with
  | act a => exact Stack.watch_act a c.stack (quiet a rfl)
  | haul | turn | note | tell | occupy | take | finish | shut | quit | clearRoster | drop | detach =>
      exact written nofun
  | dropRelay => exact absurd rfl kept

theorem dropRelay_vigil (h : Hub) : h.dropRelay.2.relay = none ∧ h.dropRelay.2.ledger = h.ledger := by
  obtain ⟨journal, dropped⟩ := h.dropRelay_cases
  rw [dropped]
  exact ⟨rfl, rfl⟩

end Scene

end HubRelay
