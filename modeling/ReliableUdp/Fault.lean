import ReliableUdp.Crash
import ReliableUdp.Wire.DecodeError
import ReliableUdp.Wire.Kind

/-!
# Faults

Everything an operation of the library can answer instead of its result: a crash, a decode
failure, settings that do not validate, a request the application may not make, a channel out
of range, or a fragment group that disagrees about its size.
-/

namespace ReliableUdp

/-- Why settings are refused, in the order they are checked. -/
inductive SettingsError where
  | mtuTooSmall
  | mtuTooLarge
  | windowSize
  | resendTablesEmpty
  | badMultiplier
  | maxSendsZero
  | handshakeAttemptsZero
  | badWeight
  | ackThresholdZero
  | ackThresholdTooBig
  | messageTooBig (size : Nat)
  | appIdEmpty
  | appIdTooLong
  | discoveryDataTooBig (max : Nat)
  | badProbability
  deriving DecidableEq, Repr

def SettingsError.message : SettingsError → String
  | .mtuTooSmall => "MTU is too small"
  | .mtuTooLarge => "MTU must not exceed 32767"
  | .windowSize => "window size must be between 1 and 511"
  | .resendTablesEmpty => "resend policy must have at least one base delay and one RTT multiplier"
  | .badMultiplier => "RTT multipliers must be finite and not negative"
  | .maxSendsZero => "max sends must be at least 1"
  | .handshakeAttemptsZero => "max handshake attempts must be at least 1"
  | .badWeight => "RTT sample weight must be >0 and <=1"
  | .ackThresholdZero => "ack flush threshold must be at least 1"
  | .ackThresholdTooBig => "ack flush threshold is too big for a single datagram"
  | .messageTooBig n => s!"max message size {n} needs more than 65535 fragments"
  | .appIdEmpty => "application identifier must not be empty"
  | .appIdTooLong => "application identifier is too long for a single datagram"
  | .discoveryDataTooBig n => s!"discovery response data must fit into a single datagram ({n} bytes)"
  | .badProbability => "simulation probabilities must be between 0.0 and 1.0"

inductive RequestError where
  | notStarted
  | alreadyStarted
  | shutDown
  | invalidChannel (channel channels : Nat)
  | tooLarge (len max : Nat)
  | notConnected
  deriving DecidableEq, Repr

def RequestError.message : RequestError → String
  | .notStarted => "Peer is not started"
  | .alreadyStarted => "Peer is already started"
  | .shutDown => "Peer is shut down"
  | .invalidChannel c n => s!"Channel {c} is out of range, delivery method has {n} channel(s)"
  | .tooLarge len max => s!"Message of {len} bytes exceeds the maximum of {max} bytes"
  | .notConnected => "Connection is not connected"

inductive Fault where
  | crash (c : Crash)
  | decode (e : DecodeError)
  | settings (e : SettingsError)
  | request (e : RequestError)
  | channelRange (channel : Nat) (method : Delivery)
  | fragmentCount (group count previous : Nat)
  deriving DecidableEq, Repr

namespace Fault

def family : Fault → String
  | crash _ => "panic"
  | decode e => e.family
  | request _ => "PeerError"
  | _ => "Error"

def message : Fault → String
  | crash c => c.message
  | decode e => e.message
  | settings e => e.message
  | request e => e.message
  | channelRange c m => s!"channel {c} is out of range for {m.name}"
  | fragmentCount g n m =>
    s!"fragment group {g}: fragment count {n} does not match previous count {m} - discarding group"

end Fault

def Fault.lift : Except Crash α → Except Fault α
  | .ok a => .ok a
  | .error c => .error (.crash c)

end ReliableUdp
