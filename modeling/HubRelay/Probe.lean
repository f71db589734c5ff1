import HubRelay.Journal
import HubRelay.SlotPool
import HubRelay.Wakeup

/-! A slot pool and a power state on their own, taken through steps one by one. -/

set_option autoImplicit false

namespace HubRelay

inductive PoolRef where
  | issued (n : Nat)
  | exact (handle : Handle)

inductive PoolStep where
  | allocate (value : Nat)
  | live (r : PoolRef)
  | retire (r : PoolRef)
  | release (r : PoolRef)
  | churn (count : Nat)
  | malformed

inductive PoolReply where
  | handle (h : Handle)
  | full (value : Nat)
  | value (v : Option Nat)
  | released (v : Option Nat)
  | failed (failure : PoolFailure)
  | last (h : Option Handle)
  | malformed

structure PoolProbe where
  pool : SlotPool Nat
  issued : Array Handle := #[]

namespace PoolProbe

def handle? (r : PoolRef) (p : PoolProbe) : Option Handle :=
  match r with
  | .issued n => p.issued[n]?
  | .exact h => some h

def churn : Nat → Option Handle → SlotPool Nat → Option Handle × SlotPool Nat
  | 0, last, pool => (last, pool)
  | count + 1, last, pool =>
      match pool.allocate 0 with
      | none => (last, pool)
      | some (h, pool) =>
          match pool.release h with
          | .ok (_, pool) => churn count (some h) pool
          | .error _ => (some h, pool)

def ifHandle (r : PoolRef) (f : Handle → PoolReply × PoolProbe) (p : PoolProbe) : PoolReply × PoolProbe :=
  match p.handle? r with
  | none => (.malformed, p)
  | some h => f h

def advance (s : PoolStep) (p : PoolProbe) : PoolReply × PoolProbe :=
  match s with
  | .allocate value =>
      match p.pool.allocate value with
      | none => (.full value, p)
      | some (h, pool) => (.handle h, ⟨pool, p.issued.push h⟩)
  | .live r => p.ifHandle r fun h => (.value (p.pool.live? h), p)
  | .retire r => p.ifHandle r fun h =>
      match p.pool.retire h with
      | none => (.value none, p)
      | some (v, pool) => (.value (some v), { p with pool := pool })
  | .release r => p.ifHandle r fun h =>
      match p.pool.release h with
      | .error failure => (.failed failure, p)
      | .ok (v, pool) => (.released v, { p with pool := pool })
  | .churn count =>
      let (last, pool) := churn count none p.pool
      (.last last, { p with pool := pool })
  | .malformed => (.malformed, p)

end PoolProbe

inductive PowerStep where
  | wake
  | suspend
  | bind (n : Nat)
  | drop (n : Nat)
  | malformed

structure PowerProbe where
  power : HostPower Nat
  resets : List (Option Nat)

namespace PowerProbe

def advance (s : PowerStep) (p : PowerProbe) : Reply × PowerProbe :=
  match s with
  | .wake => (.done, { p with power := p.power.wake })
  | .suspend =>
      let (told, power) := p.power.suspend
      (.done, ⟨power, match told with
        | none => p.resets
        | some n => p.resets.modify n (·.map (· + 1))⟩)
  | .bind n =>
      match p.resets[n]? with
      | some (some _) => (.done, { p with power := p.power.bind n })
      | _ => (.fault .noListener, p)
  | .drop n => (.done, { p with resets := p.resets.set n none })
  | .malformed => (.fault .malformed, p)

end PowerProbe

end HubRelay
