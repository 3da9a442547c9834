import ReliableUdp.Bench.WireOps
import ReliableUdp.Bench.Windows
import ReliableUdp.Bench.Messages
import ReliableUdp.Bench.Pair
import ReliableUdp.Bench.Live

/-!
# Bench: answering a request

A request names its operation in `op`; the answer is that operation's report, or an error
report when the request cannot be read or the library crashed on it.
-/

namespace ReliableUdp
namespace Bench

def report (d : Doc) : Run Doc := do
  match ← d.strField "op" with
  | "seq" => seqReport d
  | "prefixed_len" => prefixedLenReport d
  | "put_bytes" => do pure (.obj [("bytes", .str (hex (Wire.putBytes (← d.bytes "data"))))])
  | "put_string" => do pure (.obj [("bytes", .str (hex (Wire.putText (← d.text "s"))))])
  | "get_bytes" => readReport d false
  | "get_string" => readReport d true
  | "msgtype_from_raw" => msgtypeReport d
  | "msgtype_user" => msgtypeUserReport d
  | "header_ser" => headerSerReport d
  | "header_deser" => headerDeserReport d
  | "packet_read" => packetReadReport d
  | "packet_write" => packetWriteReport d
  | "lib_ser" => libSerReport d
  | "lib_deser" => libDeserReport d
  | "disconnect_truncated" => truncatedReport d
  | "config" => configReport d
  | "resend_delay" => resendDelayReport d
  | "throttle" => throttleReport d
  | "fragments_split" => fragmentsReport d
  | "pool" => poolReport d
  | "released_queue" => releasedReport d
  | "handle" => handleReport d
  | "simulation" => simulationReport d
  | "assembler" => assemblerReport d
  | "send_channels" => sendChannelsReport d
  | "receive_channels" => receiveChannelsReport d
  | "latency" => latencyReport d
  | "buffers" => buffersReport d
  | "pair" => pairReport d
  | "loop" => loopReport d
  | "peer" => peerReport d
  | "peer_api" => peerApiReport d
  | "peer_real" => liveReport d
  | other => bad s!"unknown op {other}"

def quoteChar (c : Char) : String :=
  let n := c.toNat
  if c = '\'' then "'\\''"
  else if c = '\\' then "'\\\\'"
  else if (0x80 ≤ n ∧ n ≤ 0x9f) ∨ n = 0xad ∨ (0x300 ≤ n ∧ n ≤ 0x36f) then
    "'\\u\x7b" ++ String.ofList (Nat.toDigits 16 n) ++ "\x7d'"
  else "'" ++ c.toString ++ "'"

def failureDoc : Failure → Doc
  | .badInput m => .obj [("error", .str "bad_input"), ("message", .str m)]
  | .crash c => .obj [("error", .str "panic"), ("message", .str c.message)]
  | .splitChar index c start stop =>
    .obj [("error", .str "panic"), ("message", .str (s!"end byte index {index} is not a char boundary; it is inside "
      ++ quoteChar c ++ s!" (bytes {start}..{stop} of string)"))]
  | .timeout => .obj [("error", .str "timeout")]

def answer (d : Doc) : Doc :=
  match report d with
  | .ok doc => doc
  | .error f => failureDoc f

def unreadable (why : String) : Doc :=
  .obj [("error", .str "bad_json"), ("message", .str why)]

/-- The answer line to one request line. -/
def respond (line : String) : String :=
  match Json.parse line with
  | .ok d => (answer d).render
  | .error why => (unreadable why).render

end Bench
end ReliableUdp
