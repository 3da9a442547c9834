import ReliableUdp.Crash

/-!
# Message kinds

Bits 0–6 of the type byte: `0` control, `1` unconnected, `2` unreliable, `3 ..= 34` unreliable
sequenced, `35` reliable unordered, `36 ..= 67` reliable sequenced and `68 ..= 99` reliable
ordered, channels 0–31. The number of a kind reads back as that kind (`ofRaw?_toRaw`).
-/

namespace ReliableUdp

inductive Delivery where
  | unreliable
  | unreliableSequenced
  | reliableUnordered
  | reliableSequenced
  | reliableOrdered
  deriving DecidableEq, Repr, Inhabited

namespace Delivery

def all : List Delivery :=
  [unreliable, unreliableSequenced, reliableUnordered, reliableSequenced, reliableOrdered]

def name : Delivery → String
  | unreliable => "Unreliable"
  | unreliableSequenced => "UnreliableSequenced"
  | reliableUnordered => "ReliableUnordered"
  | reliableSequenced => "ReliableSequenced"
  | reliableOrdered => "ReliableOrdered"

def ofName? (s : String) : Option Delivery := all.find? (·.name == s)

def isReliable : Delivery → Bool
  | unreliable | unreliableSequenced => false
  | _ => true

def channels : Delivery → Nat
  | unreliable | reliableUnordered => 1
  | _ => 32

def base : Delivery → Nat
  | unreliable => 2
  | unreliableSequenced => 3
  | reliableUnordered => 35
  | reliableSequenced => 36
  | reliableOrdered => 68

end Delivery

inductive Control where
  | connect
  | connectResponse
  | connectionEstablished
  | disconnect
  | keepAlive
  | ping
  | pong
  | acknowledge
  | discovery
  | discoveryResponse
  deriving DecidableEq, Repr, Inhabited

namespace Control

def all : List Control :=
  [connect, connectResponse, connectionEstablished, disconnect, keepAlive, ping, pong,
    acknowledge, discovery, discoveryResponse]

def toNat : Control → Nat
  | connect => 0
  | connectResponse => 1
  | connectionEstablished => 2
  | disconnect => 3
  | keepAlive => 4
  | ping => 5
  | pong => 6
  | acknowledge => 7
  | discovery => 8
  | discoveryResponse => 9

def ofNat? (n : Nat) : Option Control := all.find? (·.toNat == n)

def name : Control → String
  | connect => "Connect"
  | connectResponse => "ConnectResponse"
  | connectionEstablished => "ConnectionEstablished"
  | disconnect => "Disconnect"
  | keepAlive => "KeepAlive"
  | ping => "Ping"
  | pong => "Pong"
  | acknowledge => "Acknowledge"
  | discovery => "Discovery"
  | discoveryResponse => "DiscoveryResponse"

def ofName? (s : String) : Option Control := all.find? (·.name == s)

theorem ofNat?_toNat (c : Control) : ofNat? c.toNat = some c := by
  cases c <;> rfl

end Control

/-- What a message is: control, unconnected, or application data on a channel. -/
inductive Kind where
  | control
  | unconnected
  | user (method : Delivery) (channel : Nat)
  deriving DecidableEq, Repr, Inhabited

namespace Kind

def count : Nat := 100

def user? (method : Delivery) (channel : Nat) : Option Kind :=
  if channel < method.channels then some (user method channel) else none

def toRaw : Kind → Nat
  | control => 0
  | unconnected => 1
  | user m c => m.base + c

def ofRaw? (raw : Nat) : Option Kind :=
  if raw = 0 then some control
  else if raw = 1 then some unconnected
  else if raw = 2 then some (user .unreliable 0)
  else if raw = 35 then some (user .reliableUnordered 0)
  else if raw < 35 then some (user .unreliableSequenced (raw - 3))
  else if raw < 68 then some (user .reliableSequenced (raw - 36))
  else if raw < count then some (user .reliableOrdered (raw - 68))
  else none

def hasSeq (k : Kind) : Bool := k.toRaw ≥ 3

/-- The type number as a byte: an application kind whose channel runs past the byte
overflows. -/
def byte (k : Kind) : Except Crash Nat := if k.toRaw < 256 then .ok k.toRaw else .error .addOverflow

def carriesSeq (k : Kind) : Except Crash Bool := do pure ((← k.byte) ≥ 3)

def slot (k : Kind) : Except Crash Nat := do
  let raw ← k.byte
  if raw < count then pure raw else throw (.indexOutOfBounds count raw)

def method? : Kind → Option Delivery
  | user m _ => some m
  | _ => none

def isReliable (k : Kind) : Bool := match k with
  | user m _ => m.isReliable
  | _ => false

def name : Kind → String
  | control => "Library"
  | unconnected => "Unconnected"
  | user m c => s!"{m.name}:{c}"

def Valid : Kind → Prop
  | user m c => c < m.channels
  | _ => True

theorem ofRaw?_toRaw (k : Kind) (h : k.Valid) : ofRaw? k.toRaw = some k := by
  cases k with
  | control => rfl
  | unconnected => rfl
  | user m c =>
    simp only [Valid] at h
    revert c
    cases m <;> simp only [Delivery.channels] <;> decide

end Kind
end ReliableUdp
