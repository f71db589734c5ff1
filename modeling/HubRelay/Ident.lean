/-! Identifiers and masks: who a nanoapp is, which client of the host it talks to, what it may do. -/

set_option autoImplicit false

namespace HubRelay

abbrev AppId := UInt64
abbrev InstanceId := UInt16

-- Sender of the events that the hub itself produces; no nanoapp ever runs under it.
def systemInstance : InstanceId := 0

def hostMessageKind : UInt16 := 1

def hexDigits (n : Nat) : List Char := Nat.toDigits 16 n

structure Permissions where
  bits : UInt32
deriving DecidableEq

namespace Permissions

def none : Permissions := ⟨0⟩
def audio : Permissions := ⟨1⟩
def gnss : Permissions := ⟨2⟩
def wifi : Permissions := ⟨4⟩
def wwan : Permissions := ⟨8⟩

def covers (granted needed : Permissions) : Bool := granted.bits &&& needed.bits == needed.bits

def union (a b : Permissions) : Permissions := ⟨a.bits ||| b.bits⟩

def text (p : Permissions) : String := String.ofList ('0' :: 'x' :: hexDigits p.bits.toNat)

end Permissions

structure Endpoint where
  code : UInt16
deriving DecidableEq

namespace Endpoint

def unspecified : Endpoint := ⟨0xFFFE⟩

def broadcast : Endpoint := ⟨0xFFFF⟩

def isBroadcast (e : Endpoint) : Bool := e == broadcast

def text (e : Endpoint) : String :=
  let digits := hexDigits e.code.toNat
  String.ofList ('0' :: 'x' :: (List.replicate (4 - digits.length) '0' ++ digits))

end Endpoint

def AppId.text (app : AppId) : String := String.ofList ('0' :: 'x' :: hexDigits app.toNat)

end HubRelay
