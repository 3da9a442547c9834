/-!
# Crashes

A crash is a violated assumption that stops the whole computation: an arithmetic overflow
of a machine word, a duration out of range, or an internal consistency check. Each cause
carries what its report needs, and `Crash.message` is the one place that words them.
-/

namespace ReliableUdp

/-- Causes that stop the computation. -/
inductive Crash where
  | addOverflow
  | subOverflow
  | mulOverflow
  | divByZero
  | indexOutOfBounds (len index : Nat)
  | spanAddOverflow
  | spanMulOverflow
  | instantOverflow
  | secondsNegative
  | secondsOutOfRange
  | countOutOfRange
  | exceedsMtu (len mtu : Nat)
  | payloadTooLong (len : Nat)
  | notUserMessage
  | notReliable
  | sendFailed (target text : String)
  deriving DecidableEq, Repr

namespace Crash

def message : Crash → String
  | addOverflow => "attempt to add with overflow"
  | subOverflow => "attempt to subtract with overflow"
  | mulOverflow => "attempt to multiply with overflow"
  | divByZero => "attempt to divide by zero"
  | indexOutOfBounds len index => s!"index out of bounds: the len is {len} but the index is {index}"
  | spanAddOverflow => "overflow when adding durations"
  | spanMulOverflow => "overflow when multiplying duration by scalar"
  | instantOverflow => "overflow when adding duration to instant"
  | secondsNegative => "cannot convert float seconds to Duration: value is negative"
  | secondsOutOfRange => "cannot convert float seconds to Duration: value is either too big or NaN"
  | countOutOfRange =>
    "this is a bug: value range should have been checked before: TryFromIntError(PosOverflow)"
  | exceedsMtu len mtu => s!"message of {len} bytes exceeds MTU of {mtu} - this is a bug"
  | payloadTooLong len => s!"payload length {len} exceeds the maximum of 32767 - this is a bug"
  | notUserMessage => "only user messages are classified"
  | notReliable => "assertion failed: message.message_type.is_reliable()"
  | sendFailed target text => s!"error sending datagram to {target}: {text}"

end Crash

def wordLimit : Nat := Nat.pow 2 64

def addWord (a b : Nat) : Except Crash Nat :=
  if a + b < wordLimit then .ok (a + b) else .error .addOverflow

def subWord (a b : Nat) : Except Crash Nat :=
  if b ≤ a then .ok (a - b) else .error .subOverflow

def mulWord (a b : Nat) : Except Crash Nat :=
  if a * b < wordLimit then .ok (a * b) else .error .mulOverflow

end ReliableUdp
