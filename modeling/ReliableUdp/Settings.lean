import ReliableUdp.Fault
import ReliableUdp.Time.Span
import ReliableUdp.Wire.Header
import ReliableUdp.Wire.Payload

/-!
# Settings

What a peer is configured with, its defaults, and the guard that reports the first setting the
library cannot work with. After a message's `n`-th send the next waits
`base[n-1] + rtt · multiplier[n-1]`, each table read at its last entry past its end.
-/

namespace ReliableUdp

-- notification kinds, one bit each
namespace Notify
def status : Nat := 1
def debug : Nat := 2
def warning : Nat := 4
def error : Nat := 8
def unconnected : Nat := 16
def discovery : Nat := 32
def all : Nat := 63
def standard : Nat := all - debug
def has (bits bit : Nat) : Bool := bits / bit % 2 = 1
end Notify

structure ResendSchedule where
  baseDelays : List Nat := [25, 50, 100, 200, 400, 800].map Span.ofMillis
  rttMultipliers : List Float := [1.5, 2.0, 2.5, 3.0, 4.0, 5.0]
  maxSends : Nat := 12

structure Simulation.Settings where
  loss : Float := 0.0
  duplicates : Float := 0.0
  minLatency : Nat := 0
  randomLatency : Nat := 0

def Simulation.Settings.isActive (s : Simulation.Settings) : Bool :=
  s.loss > 0.0 || s.duplicates > 0.0 || s.minLatency ≠ 0 || s.randomLatency ≠ 0

structure Settings where
  appId : String
  acceptIncoming : Bool := false
  maxConnections : Nat := 32
  connectionApproval : Bool := false
  mtu : Nat := 1408
  maxPoolSize : Nat := 256
  maxMessageSize : Nat := 1024 * 1024
  pingFrequency : Nat := Span.ofMillis 4000
  keepAliveDelay : Nat := Span.ofMillis 2000
  connectionTimeout : Nat := Span.ofMillis 25000
  handshakeRetry : Nat := Span.ofMillis 3000
  maxHandshakeAttempts : Nat := 5
  linger : Nat := 0
  rttWeight : Float := 0.25
  resend : ResendSchedule := {}
  windowSize : Nat := 64
  ackThreshold : Nat := 10
  maxAckDelay : Nat := Span.ofMillis 10
  throttleRate : Nat := 0
  throttlePeak : Nat := 8192
  fragmentTimeout : Nat := Span.ofMillis 30000
  answerDiscovery : Bool := false
  discoveryData : Bytes := []
  notifications : Nat := Notify.standard
  simulation : Simulation.Settings := {}
  panicOnSendError : Bool := false

namespace Settings

def maxPayload (s : Settings) : Nat := s.mtu - Header.maxLen

def check (cond : Bool) (e : SettingsError) : Except Fault Unit :=
  if cond then .ok () else .error (.settings e)

def validate (s : Settings) : Except Fault Unit := do
  check (s.mtu ≥ 100) .mtuTooSmall
  check (s.mtu ≤ Header.maxPayload) .mtuTooLarge
  check (s.windowSize ≠ 0 && s.windowSize < seqSpace / 2) .windowSize
  check (!s.resend.baseDelays.isEmpty && !s.resend.rttMultipliers.isEmpty) .resendTablesEmpty
  check (s.resend.rttMultipliers.all fun m => m.isFinite && m ≥ 0.0) .badMultiplier
  check (s.resend.maxSends ≠ 0) .maxSendsZero
  check (s.maxHandshakeAttempts ≠ 0) .handshakeAttemptsZero
  check (s.rttWeight > 0.0 && s.rttWeight ≤ 1.0) .badWeight
  check (s.ackThreshold ≠ 0) .ackThresholdZero
  let ackBytes ← Fault.lift (mulWord s.ackThreshold Payload.ackEntryLen)
  check (ackBytes ≤ s.maxPayload) .ackThresholdTooBig
  check ((s.maxMessageSize + s.maxPayload - 1) / s.maxPayload ≤ 65535) (.messageTooBig s.maxMessageSize)
  check (s.appId ≠ "") .appIdEmpty
  check (Payload.connectLen s.appId [] ≤ s.maxPayload) .appIdTooLong
  check (s.discoveryData.length ≤ s.maxPayload) (.discoveryDataTooBig s.maxPayload)
  let inUnit := fun (p : Float) => p ≥ 0.0 && p ≤ 1.0
  check (inUnit s.simulation.loss && inUnit s.simulation.duplicates) .badProbability

end Settings

namespace ResendSchedule

/-- The entry of `xs` for send count `n`: entry `n - 1`, or the last one past the end. -/
def entryFor (xs : List α) (n : Nat) : Except Crash α :=
  match xs.getLast? with
  | none => .error .subOverflow
  | some last => .ok (xs.getD (n - 1) last)

def delay (r : ResendSchedule) (n : Nat) (rtt : Nat) : Except Crash Nat := do
  let base ← entryFor r.baseDelays n
  let mult ← entryFor r.rttMultipliers n
  let extra ← Span.scale rtt mult
  Span.add base extra

end ResendSchedule
end ReliableUdp
