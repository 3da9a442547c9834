import ReliableUdp.Net.Endpoint
import ReliableUdp.Wire.Bytes

/-!
# A datagram socket as the loop sees it

Receiving yields the next queued datagram or failure, or nothing; sending succeeds or fails the
way its endpoint fails. A datagram longer than the receive buffer is cut to its length.
-/

namespace ReliableUdp

inductive IoKind where
  | refused
  | reset
  | other
  deriving DecidableEq, Repr

def IoKind.ofName? : String → Option IoKind
  | "refused" => some .refused
  | "reset" => some .reset
  | "other" => some .other
  | _ => none

structure Socket where
  address : Endpoint
  inbox : List (Except IoKind (Endpoint × Bytes)) := []
  failing : List (Endpoint × IoKind) := []
  sent : Array (Endpoint × Bytes) := #[]

namespace Socket

def receiveBuffer : Nat := 65536

def sendFailureText : String := "simulated send failure"

def push (s : Socket) (r : Except IoKind (Endpoint × Bytes)) : Socket := { s with inbox := s.inbox ++ [r] }

def receive (s : Socket) : Option (Except IoKind (Endpoint × Bytes)) × Socket :=
  match s.inbox with
  | [] => (none, s)
  | r :: rest => (some (r.map fun (e, d) => (e, d.take receiveBuffer)), { s with inbox := rest })

def send (s : Socket) (dest : Endpoint) (d : Bytes) : Except IoKind Unit × Socket :=
  match s.failing.find? (·.1 == dest) with
  | some (_, k) => (.error k, s)
  | none => (.ok (), { s with sent := s.sent.push (dest, d) })

def takeSent (s : Socket) : List (Endpoint × Bytes) × Socket := (s.sent.toList, { s with sent := #[] })

end Socket
end ReliableUdp
