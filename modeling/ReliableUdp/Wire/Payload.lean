import ReliableUdp.Text.Utf8
import ReliableUdp.Wire.Seq

/-!
# Control message payloads

Connect carries the application identifier and the hail, ConnectResponse the hail, Disconnect
the reason, ping and pong the ping id, and Acknowledge a packed run of (sequence number, kind
number) entries.
-/

namespace ReliableUdp
namespace Payload

def ackEntryLen : Nat := 3

def connectWith (v : Wire.Varint) (app : String) (hail : Bytes) : Bytes :=
  Wire.putTextWith v app ++ Wire.putBytesWith v hail

def connect (app : String) (hail : Bytes) : Bytes := connectWith .leb128 app hail

def connectLen (app : String) (hail : Bytes) : Nat :=
  Wire.prefixedLen (Utf8.encode app).length + Wire.prefixedLen hail.length

def readConnectWith (v : Wire.Varint) : Reader (String × Bytes) := do
  let app ← Wire.readTextWith v
  let hail ← Wire.readBytesWith v
  pure (app, hail)

def readConnect : Reader (String × Bytes) := readConnectWith .leb128

def ping (id : Nat) : Bytes := [id.toUInt8]

def readPing : Reader Nat := do
  let b ← Wire.readU8
  pure b.toNat

def ack (entries : List (Seq × Nat)) : Bytes :=
  entries.flatMap fun (s, k) => Wire.putU16 s.val ++ [k.toUInt8]

def readAckEntries : Nat → Reader (List (Seq × Nat))
  | 0 => pure []
  | n + 1 => do
    let s ← Wire.readU16
    let k ← Wire.readU8
    let rest ← readAckEntries n
    pure ((Seq.ofNat s, k.toNat) :: rest)

def readAck : Reader (List (Seq × Nat)) := do
  let bs ← get
  if bs.length % ackEntryLen ≠ 0 then throw (.ackLength bs.length)
  readAckEntries (bs.length / ackEntryLen)

/-- The reason cut between characters so that its payload takes at most `max` bytes. -/
def disconnectReason (reason : String) (max : Nat) : String := Wire.truncateText reason max

end Payload
end ReliableUdp
