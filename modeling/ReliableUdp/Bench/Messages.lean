import ReliableUdp.Bench.Parts

/-!
# Bench: message wrappers over one pool

Outgoing messages are shared by queue references and come back to the pool with the last one;
incoming messages are taken from the pool and given back. Each kind is numbered as it is made.
-/

namespace ReliableUdp
namespace Bench

structure Buffer where
  data : Bytes := []
  cap : Nat
  sender : Option Endpoint := none

/-- The capacity after appending `add` bytes: unchanged while they fit, else at least double,
at least 8 and at least what is needed. -/
def grownCap (len cap add : Nat) : Nat :=
  if len + add ≤ cap then cap else max 8 (max (2 * cap) (len + add))

def Buffer.append (b : Buffer) (bs : Bytes) : Buffer :=
  { b with data := b.data ++ bs, cap := grownCap b.data.length b.cap bs.length }

structure BufferBench where
  pool : Pool
  outs : Array (Option Buffer) := #[]
  refs : Array (Option Payload) := #[]
  ins : Array (Option Buffer) := #[]

def entry (xs : Array (Option α)) (op : Doc) (key : String) : Run (Nat × α) := do
  let i ← op.natAt key
  match xs[i]? with
  | some (some x) => pure (i, x)
  | _ => bad s!"unknown {key} {i}"

def outDebug (b : Buffer) : String := "OutgoingMessage\x7b" ++ toString b.data.length ++ " bytes\x7d"

def inDebug (b : Buffer) : String :=
  let sender := match b.sender with
    | some e => "Some(" ++ e.toText ++ ")"
    | none => "None"
  "IncomingMessage\x7bUnconnectedData from " ++ sender ++ ", " ++ toString b.data.length ++ " bytes\x7d"

def outDoc (b : Buffer) : List (String × Doc) :=
  [("len", .nat b.data.length), ("empty", .bool b.data.isEmpty), ("capacity", .nat b.cap),
    ("debug", .str (outDebug b))]

def refDoc (p : Pool) (id : Nat) (pay : Payload) : Doc :=
  .obj [("ref", .nat id), ("in_queue", .nat (p.refs pay))]

def buffersStep (b : BufferBench) (op : Doc) : Run (Doc × BufferBench) := do
  let (r, b) ← match ← op.strField "do" with
    | "create_out" =>
      let (m, pool) := b.pool.createOutgoing (← op.natAt "cap")
      let m : Buffer := { data := m.data, cap := m.cap }
      pure (.obj (("id", .nat b.outs.size) :: outDoc m), { b with pool, outs := b.outs.push (some m) })
    | "write" | "put" =>
      let (i, m) ← entry b.outs op "id"
      pure (.null, { b with outs := b.outs.setIfInBounds i (some (m.append (← op.bytes "data"))) })
    | "info" =>
      let (_, m) ← entry b.outs op "id"
      pure (.obj (("data", .str (summary m.data)) :: outDoc m), b)
    | "queue" =>
      let (i, m) ← entry b.outs op "id"
      let (pay, pool) := b.pool.enqueue m.data m.cap
      pure (refDoc pool b.refs.size pay,
        { b with pool, outs := b.outs.setIfInBounds i none, refs := b.refs.push (some pay) })
    | "recycle_out" =>
      let (i, m) ← entry b.outs op "id"
      let pool := b.pool.recycleOutgoing { data := m.data, cap := m.cap }
      pure (.null, { b with pool, outs := b.outs.setIfInBounds i none })
    | "clone_ref" =>
      let (_, pay) ← entry b.refs op "ref"
      let pool := b.pool.retain pay
      pure (.obj [("ref", .nat b.refs.size)], { b with pool, refs := b.refs.push (some pay) })
    | "drop_ref" =>
      let (i, pay) ← entry b.refs op "ref"
      pure (.null, { b with pool := b.pool.release pay, refs := b.refs.setIfInBounds i none })
    | "ref_info" =>
      let (_, pay) ← entry b.refs op "ref"
      let n := b.pool.refs pay
      let debug := "QueueRef\x7b" ++ toString pay.data.length ++ " bytes, in queue " ++ toString n ++ "\x7d"
      pure (.obj [("len", .nat pay.data.length), ("data", .str (summary pay.data)), ("in_queue", .nat n),
        ("sent", .bool (b.pool.isSent pay)), ("debug", .str debug)], b)
    | "mark_sent" =>
      let (_, pay) ← entry b.refs op "ref"
      let (first, pool) := b.pool.markSent pay
      pure (.bool first, { b with pool })
    | "create_in" =>
      let (w, pool) := b.pool.createIncoming (← op.natAt "cap")
      let m : Buffer := { data := w.storage.data, cap := w.storage.cap, sender := w.sender }
      pure (.obj [("id", .nat b.ins.size), ("capacity", .nat m.cap), ("data", .str (summary m.data)),
        ("kind", .str "UnconnectedData"), ("connection", .bool w.handle.isSome),
        ("sender", endpointDoc m.sender), ("debug", .str (inDebug m))],
        { b with pool, ins := b.ins.push (some m) })
    | "recycle_in" =>
      let (i, m) ← entry b.ins op "id"
      let w : Incoming := { sender := m.sender, storage := { data := m.data, cap := m.cap } }
      pure (.null, { b with pool := b.pool.recycleIncoming w, ins := b.ins.setIfInBounds i none })
    | "released" =>
      let sender ← op.endpoint "from"
      let data ← op.bytes "data"
      let (w, pool) := b.pool.createIncoming data.length
      let m : Buffer := ({ data := w.storage.data, cap := w.storage.cap, sender := some sender } : Buffer).append data
      pure (.obj [("debug", .str (inDebug m)), ("capacity_ok", .bool (m.cap ≥ data.length))],
        { b with pool, ins := b.ins.push (some m) })
    | "get_storage" =>
      let (buf, pool) := b.pool.getStorage (← op.natAt "cap")
      pure (.nat buf.cap, { b with pool })
    | "recycle_storage" => pure (.null, { b with pool := b.pool.recycleStorage { cap := ← op.natAt "cap" } })
    | "pooled_storage" => pure (.nat b.pool.storage.length, b)
    | other => bad s!"unknown op {other}"
  pure (.obj [("r", r), ("recycled", .nat b.pool.recycledOut)], b)

def buffersReport (req : Doc) : Run Doc := do
  let max ← req.natOr "max_pool" 10
  let (rs, _) ← runOps (← req.listField "ops") { pool := { max } } buffersStep
  pure (results rs)

end Bench
end ReliableUdp
