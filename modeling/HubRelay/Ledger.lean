/-! What each nanoapp instance answers for: the messages it sent, and the wake cycles it opened. -/

set_option autoImplicit false

namespace HubRelay

structure Usage where
  sent : Nat := 0
  wakeups : Nat := 0
deriving DecidableEq

def Usage.countSent (u : Usage) : Usage := { u with sent := u.sent + 1 }
def Usage.countWakeup (u : Usage) : Usage := { u with wakeups := u.wakeups + 1 }

structure Ledger where
  opened : Nat := 0
  rows : List (Nat × Usage) := []

namespace Ledger

def openRow (l : Ledger) : Nat × Ledger := (l.opened, { l with opened := l.opened + 1 })

def usage (entry : Nat) (l : Ledger) : Usage := (l.rows.lookup entry).getD {}

def updateRow (entry : Nat) (f : Usage → Usage) : List (Nat × Usage) → List (Nat × Usage)
  | [] => [(entry, f {})]
  | (e, u) :: rest => if e == entry then (e, f u) :: rest else (e, u) :: updateRow entry f rest

def update (entry : Nat) (f : Usage → Usage) (l : Ledger) : Ledger :=
  { l with rows := updateRow entry f l.rows }

end Ledger

end HubRelay
