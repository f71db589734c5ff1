import HubRelay.Envelope

/-! A link that answers the messages offered to it by rote. It may keep them, and may complete this or
any other message while one is being offered. -/

set_option autoImplicit false

namespace HubRelay

inductive CompletionTarget where
  | offered
  | exact (handle : Handle)
deriving DecidableEq

def CompletionTarget.handle (offered : Handle) : CompletionTarget → Handle
  | .offered => offered
  | .exact k => k

structure Reaction where
  completes : List CompletionTarget
  keeps : Bool
  accepts : Bool
deriving DecidableEq

namespace Reaction

def hold : Reaction := ⟨[], true, true⟩
def holdRefuse : Reaction := ⟨[], true, false⟩
def completeHold : Reaction := ⟨[.offered], true, true⟩
def completeDrop : Reaction := ⟨[.offered], false, true⟩
def completeRefuse : Reaction := ⟨[.offered], false, false⟩
def refuse : Reaction := ⟨[], false, false⟩

end Reaction

structure Puppet where
  reaction : Reaction := .hold
  kept : List Outgoing := []
  flushes : Bool := true

namespace Puppet

def keep (m : Outgoing) (p : Puppet) : Puppet := { p with kept := p.kept ++ [m] }

def completions (m : Outgoing) (p : Puppet) : List Handle := p.reaction.completes.map (·.handle m.handle)

end Puppet

end HubRelay
