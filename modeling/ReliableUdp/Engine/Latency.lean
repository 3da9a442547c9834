import ReliableUdp.Time.Span

/-!
# Round-trip time and liveness

The average round trip is seeded from the handshake, then moved by each ping's sample with a
fixed weight; only the latest ping is timed. The connection times out when the latest response
from the remote side is older than the timeout.
-/

namespace ReliableUdp

inductive Rtt where
  | unknown
  | preliminary (seconds : Float)
  | measured (seconds : Float)
  deriving Repr

structure Latency where
  avg : Rtt := .unknown
  weight : Float
  lastResponse : Nat
  nextPingId : Nat := 0
  pendingPing : Option (Nat × Nat) := none
  lastPingSent : Option Nat := none
  deriving Repr

namespace Latency

def start (weight : Float) (now : Nat) : Latency := { weight, lastResponse := now }

def maxRttSeconds : Float := 4.0

def clampedSeconds (ns : Nat) : Float :=
  let s := Span.toSeconds ns
  if s > maxRttSeconds then maxRttSeconds else s

def seed (l : Latency) (handshake : Nat) : Latency := { l with avg := .preliminary (clampedSeconds handshake) }

def addSample (l : Latency) (rtt : Nat) : Latency :=
  let sample := clampedSeconds rtt
  match l.avg with
  | .measured prev => { l with avg := .measured (prev * (1.0 - l.weight) + sample * l.weight) }
  | _ => { l with avg := .measured sample }

def avgRtt (l : Latency) : Except Crash Nat :=
  match l.avg with
  | .unknown => .ok 0
  | .preliminary s | .measured s => Span.ofSeconds s

def pingDue (l : Latency) (now freq : Nat) : Bool :=
  match l.lastPingSent with
  | none => true
  | some t => now - t ≥ freq

def pingSent (l : Latency) (now : Nat) : Nat × Latency :=
  let next : Latency := { l with
    nextPingId := (l.nextPingId + 1) % 256
    pendingPing := some (l.nextPingId, now)
    lastPingSent := some now }
  (l.nextPingId, next)

def onResponse (l : Latency) (now : Nat) : Latency :=
  if now > l.lastResponse then { l with lastResponse := now } else l

def onPong (l : Latency) (id now : Nat) : Latency :=
  match l.pendingPing with
  | some (p, sentAt) =>
    if p = id then ({ l with pendingPing := none }.onResponse now).addSample (now - sentAt) else l
  | none => l

def timedOut (l : Latency) (now timeout : Nat) : Bool := now - l.lastResponse > timeout

end Latency

/-- A byte-rate limit: the debt grows with each byte sent and is paid off at `rate` bytes
per second; above `peak` bytes of debt, sending waits. A rate of 0 means no limit. -/
structure Throttle where
  debt : Float := 0.0
  lastUpdate : Nat
  deriving Repr

namespace Throttle

def atLeastZero (x : Float) : Float := if x.isNaN || x ≤ 0.0 then 0.0 else x

def update (t : Throttle) (now rate : Nat) : Throttle :=
  let elapsed := Span.toSeconds (now - t.lastUpdate)
  { debt := atLeastZero (t.debt - elapsed * Float.ofNat rate), lastUpdate := now }

def isThrottled (t : Throttle) (rate peak : Nat) : Bool := rate > 0 && t.debt > Float.ofNat peak

def charge (t : Throttle) (bytes : Nat) : Throttle := { t with debt := t.debt + Float.ofNat bytes }

end Throttle
end ReliableUdp
