import ReliableUdp.Buffers.Pool
import ReliableUdp.Wire.Header

/-!
# Queued messages

A message waiting to be sent, or stored until it is acknowledged: a shared payload, its kind,
and for a fragment its tag and the byte range of the payload it carries.
-/

namespace ReliableUdp

/-- Outbound queues are drained high before normal before low. -/
inductive Priority where
  | high
  | normal
  | low
  deriving DecidableEq, Repr, Inhabited

def Priority.all : List Priority := [.high, .normal, .low]

def Priority.name : Priority → String
  | .high => "High"
  | .normal => "Normal"
  | .low => "Low"

def Priority.ofName? (s : String) : Option Priority := Priority.all.find? (·.name == s)

structure Queued where
  payload : Payload
  kind : Kind
  fragment : Option (FragmentTag × Nat × Nat) := none
  deriving Repr, Inhabited

namespace Queued

def data (q : Queued) : Bytes :=
  match q.fragment with
  | some (_, start, stop) => (q.payload.data.drop start).take (stop - start)
  | none => q.payload.data

def tag (q : Queued) : Option FragmentTag := q.fragment.map (·.1)

end Queued
end ReliableUdp
