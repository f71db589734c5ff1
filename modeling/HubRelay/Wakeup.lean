/-! Whether the host is awake, and which nanoapp answers for having woken it: one for each wake cycle,
the first whose message is accepted while the host sleeps. -/

set_option autoImplicit false

namespace HubRelay

structure WakeClaim where
  taken : Bool := false
deriving DecidableEq

namespace WakeClaim

def claim (c : WakeClaim) : Bool × WakeClaim := (!c.taken, ⟨true⟩)

def reset (_ : WakeClaim) : WakeClaim := ⟨false⟩

end WakeClaim

structure HostPower (κ : Type) where
  awake : Bool := true
  listener : Option κ := none

namespace HostPower

variable {κ : Type}

def bind (k : κ) (p : HostPower κ) : HostPower κ := { p with listener := some k }

def wake (p : HostPower κ) : HostPower κ := { p with awake := true }

def suspend (p : HostPower κ) : Option κ × HostPower κ :=
  (if p.awake then p.listener else none, { p with awake := false })

end HostPower

end HubRelay
