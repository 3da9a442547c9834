import ReliableUdp.Buffers.Event
import ReliableUdp.Buffers.Queued
import ReliableUdp.Fault

/-!
# Connection handles

The application's side of a connection: its endpoint, its published status and round trip,
three outbound queues, and the requests waiting for the connection (a decision, a disconnect).
-/

namespace ReliableUdp

inductive Decision where
  | approve (hail : Bytes)
  | deny (reason : String)
  deriving Repr

structure Handle where
  id : Nat
  remote : Endpoint
  maxPayload : Nat
  status : Status := .none
  rtt : Nat := 0
  high : List Queued := []
  normal : List Queued := []
  low : List Queued := []
  decision : Option Decision := none
  disconnectRequest : Option String := none
  remoteHail : Bytes := []
  deriving Repr

namespace Handle

def create (id : Nat) (remote : Endpoint) (maxPayload : Nat) : Handle := { id, remote, maxPayload }

def check (h : Handle) (len : Nat) : Except Fault Unit :=
  if len > h.maxPayload then .error (.request (.tooLarge len h.maxPayload)) else .ok ()

def approve (h : Handle) : Handle := { h with decision := some (.approve []) }

def approveWith (h : Handle) (hail : Bytes) : Except Fault Handle := do
  h.check (Wire.prefixedLen hail.length)
  pure { h with decision := some (.approve hail) }

def deny (h : Handle) (reason : String) : Except Fault Handle := do
  h.check (Wire.prefixedLen (Utf8.encode reason).length)
  pure { h with decision := some (.deny reason) }

def requestDisconnect (h : Handle) (reason : String) : Except Fault Handle := do
  h.check (Wire.prefixedLen (Utf8.encode reason).length)
  pure { h with disconnectRequest := some reason }

def enqueue (h : Handle) (q : Queued) : Priority → Handle
  | .high => { h with high := h.high ++ [q] }
  | .normal => { h with normal := h.normal ++ [q] }
  | .low => { h with low := h.low ++ [q] }

def queued (h : Handle) : Nat := h.high.length + h.normal.length + h.low.length

def outbound (h : Handle) : List Queued := h.high ++ h.normal ++ h.low

def debugText (h : Handle) : String :=
  "Connection\x7b" ++ h.remote.toText ++ ", " ++ h.status.name ++ "\x7d"

end Handle
end ReliableUdp
