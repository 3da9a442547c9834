import ReliableUdp.Wire.Header

/-!
# Datagrams

A datagram is a run of messages of at most `mtu` bytes. The writer closes a datagram when the
next message does not fit; the reader stops at the first message it cannot read.
-/

namespace ReliableUdp

namespace Datagram

/-- A datagram writer: the datagram being filled and the ones already closed, oldest first. -/
structure Writer where
  mtu : Nat
  current : Option Bytes := none
  finished : List Bytes := []
  deriving Repr

namespace Writer

def empty (mtu : Nat) : Writer := { mtu }

def maxPayload (w : Writer) (headerLen : Nat) : Nat := min (w.mtu - headerLen) Header.maxPayload

def hasData (w : Writer) : Bool := w.current.isSome || !w.finished.isEmpty

def write (w : Writer) (h : Header) (payload : Bytes) : Except Crash Writer :=
  let len := h.encodedLen + payload.length
  if len > w.mtu then .error (.exceedsMtu len w.mtu)
  else
    let msg := h.encode ++ payload
    match w.current with
    | some cur =>
      if cur.length + len > w.mtu then .ok { w with current := some msg, finished := w.finished ++ [cur] }
      else .ok { w with current := some (cur ++ msg) }
    | none => .ok { w with current := some msg }

def take (w : Writer) : List Bytes × Writer :=
  let all := match w.current with
    | some cur => w.finished ++ [cur]
    | none => w.finished
  (all, { w with current := none, finished := [] })

end Writer

def readMessage : Reader (Header × Bytes) := fun bs => do
  let (h, rest) ← Header.decode bs
  if h.payloadLen > rest.length then throw (.payloadExceeds h.payloadLen rest.length)
  pure ((h, rest.take h.payloadLen), rest.drop h.payloadLen)

def read (bs : Bytes) : List (Except DecodeError (Header × Bytes)) :=
  go bs.length bs
where
  go : Nat → Bytes → List (Except DecodeError (Header × Bytes))
    | 0, _ => []
    | _, [] => []
    | fuel + 1, bs =>
      match readMessage bs with
      | .ok (m, rest) => .ok m :: go fuel rest
      | .error e => [.error e]

end Datagram
end ReliableUdp
