import ReliableUdp.Bench.Parts
import ReliableUdp.Engine.SendWindow
import ReliableUdp.Engine.ReceiveWindow

/-!
# Bench: the fragment assembler, the windows and the latency tracker

Each operation may carry `t`, the time in milliseconds since the start of the clock.
-/

namespace ReliableUdp
namespace Bench

def assemblerStep (a : Assembler) (op : Doc) : Run (Doc × Assembler) := do
  let now ← timeAt op
  let (r, a) ← match op.get? "add" with
    | some f => do
      let tag : FragmentTag := {
        group := ← f.u16At "group"
        total := ← f.u16At "total"
        index := ← f.u16At "index" }
      let (r, a) ← lift (a.add tag (← f.bytes "data") now)
      pure (← outcome r fun c => .obj [("complete", Doc.opt (.str ∘ summary) c)], a)
    | none =>
      if op.has "expire" then
        let (ids, a) := a.expire now
        pure (.obj [("expired", .arr (ids.map .nat))], a)
      else bad "unknown assembler op"
  pure (.obj [("r", r), ("groups", .nat a.incomplete)], a)

def assemblerReport (req : Doc) : Run Doc := do
  let timeout := Span.ofMillis (← req.natAt "timeout_ms")
  let (rs, _) ← runOps (← req.listField "ops") { timeout } assemblerStep
  pure (results rs)

/-- A send window with the pool its payloads come from. -/
structure SendBench where
  window : SendWindow
  pool : Pool := { max := 10 }

def sendStep (r : ResendSchedule) (b : SendBench) (op : Doc) : Run (Doc × SendBench) := do
  let now ← timeAt op
  let (res, b) ← match ← op.strField "do" with
    | "assign" =>
      let (s, w) ← lift (b.window.assign (← kindAt op))
      pure (Doc.opt (fun s => .nat s.val) s, { b with window := w })
    | "store" =>
      let k ← kindAt op
      let seq := Seq.ofNat (← op.u16At "seq")
      let (payload, pool) := b.pool.enqueue (← op.bytesOr "data")
      let rtt ← op.natOr "avg_rtt_ns" 0
      let w ← lift (b.window.store { payload, kind := k } seq now r rtt)
      pure (okDoc, { window := w, pool })
    | "resend_due" =>
      let (pass, w) ← lift (b.window.resendDue now r (← op.natOr "avg_rtt_ns" 0))
      let pool := b.pool.releaseAll (pass.dropped.map (·.payload))
      let msgs := pass.resent.map fun (m, s) => Doc.arr [.str m.kind.name, .nat s.val, .str (summary m.data)]
      pure (.obj [("resent", .nat pass.resent.length), ("dropped", .nat pass.dropped.length),
        ("messages", .arr msgs)], { window := w, pool })
    | "ack" =>
      let seq := Seq.ofNat (← op.u16At "seq")
      let (m, w) := b.window.ack seq (← op.u8At "raw_type")
      let pool := match m with
        | some m => b.pool.release m.payload
        | none => b.pool
      pure (.bool m.isSome, { window := w, pool })
    | "window_full" => pure (.bool (← lift (b.window.isFull (← kindAt op))), b)
    | "clear" =>
      let (ms, w) := b.window.clear
      pure (okDoc, { window := w, pool := b.pool.releaseAll (ms.map (·.payload)) })
    | other => bad s!"unknown op {other}"
  pure (.obj [("r", res), ("stored", .nat b.window.count), ("recycled", .nat b.pool.recycledOut)], b)

def sendChannelsReport (req : Doc) : Run Doc := do
  let window ← req.u16At "window_size"
  let s ← settingsAt req "config" "test"
  let (rs, _) ← runOps (← req.listField "ops") { window := { window } } (sendStep s.resend)
  pure (results rs)

def seqBytes (n : Nat) : Bytes := [UInt8.ofNat (n % 256), UInt8.ofNat (n / 256 % 256)]

def receiveStep (w : ReceiveWindow) (op : Doc) : Run (Doc × ReceiveWindow) := do
  let now ← timeAt op
  let (res, w) ← match ← op.strField "do" with
    | "recv" =>
      let kind ← kindAt op
      let seq ← match ← op.natOpt "seq" with
        | some n => some <$> fits n 16 "seq"
        | none => pure none
      let data ← match op.lookup? "data" with
        | some d => d.asBytes "data"
        | none => pure ((seq.map fun n => seqBytes (Seq.ofNat n).val).getD [])
      let (v, out, w) ← lift (w.receive { kind, seq := seq.map Seq.ofNat, data } now)
      pure (.obj [("class", .str v.name), ("delivered", .arr (out.map fun m => .str (summary m.data)))], w)
    | "take_acks" =>
      let (acks, w) := w.takeAcks
      pure (.arr (acks.map fun (s, raw) => .arr [.nat s.val, .nat raw]), w)
    | "should_flush" =>
      let threshold ← op.natAt "threshold"
      let maxDelay := Span.ofMillis (← op.natAt "max_delay_ms")
      pure (.bool (w.shouldFlush now threshold maxDelay), w)
    | "clear" => pure (okDoc, w.clear)
    | other => bad s!"unknown op {other}"
  pure (.obj [("r", res), ("withheld", .nat w.withheldCount), ("acks", .nat w.acks.length)], w)

def receiveChannelsReport (req : Doc) : Run Doc := do
  let (rs, _) ← runOps (← req.listField "ops") {} receiveStep
  pure (results rs)

def latencyStep (l : Latency) (op : Doc) : Run (Doc × Latency) := do
  let now ← timeAt op
  let (res, l) ← match ← op.strField "do" with
    | "seed" => pure (.null, l.seed (← op.natAt "ns"))
    | "sample" => pure (.null, l.addSample (← op.natAt "ns"))
    | "ping_due" => pure (.bool (l.pingDue now (Span.ofMillis (← op.natAt "freq_ms"))), l)
    | "ping_sent" =>
      let (id, l) := l.pingSent now
      pure (.nat id, l)
    | "pong" => pure (.null, l.onPong (← op.u8At "id") now)
    | "response" => pure (.null, l.onResponse now)
    | "timed_out" => pure (.bool (l.timedOut now (Span.ofMillis (← op.natAt "timeout_ms"))), l)
    | other => bad s!"unknown op {other}"
  let rtt ← lift l.avgRtt
  pure (.obj [("r", res), ("rtt_ns", .nat rtt), ("responded_ms", .nat (Span.toMillis l.lastResponse))], l)

def latencyReport (req : Doc) : Run Doc := do
  let weight ← (← req.field "weight").asFloat "weight"
  let (rs, _) ← runOps (← req.listField "ops") (Latency.start weight 0) latencyStep
  pure (results rs)

end Bench
end ReliableUdp
