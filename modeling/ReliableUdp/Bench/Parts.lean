import ReliableUdp.Bench.Setup
import ReliableUdp.Engine.Fragments
import ReliableUdp.Engine.Latency
import ReliableUdp.Connection.Handle
import ReliableUdp.Net.Simulation

/-!
# Bench: settings, schedules, pools, events, handles and simulated links

Each report takes one request and answers it whole; requests with a list of operations answer
one result per operation, in order, the state carried from one operation to the next.
-/

namespace ReliableUdp
namespace Bench

def runOps (ops : List Doc) (init : σ) (step : σ → Doc → Run (Doc × σ)) : Run (List Doc × σ) := do
  let (out, s) ← ops.foldlM (fun (acc : Array Doc × σ) op => do
    let (r, s) ← step acc.2 op
    pure (acc.1.push r, s)) (#[], init)
  pure (out.toList, s)

def outcome (x : Except Fault α) (f : α → Doc) : Run Doc :=
  match x with
  | .ok a => pure (f a)
  | .error (.crash c) => crash c
  | .error e => pure (faultDoc e)

def results (rs : List Doc) : Doc := .obj [("results", .arr rs)]

def configReport (req : Doc) : Run Doc := do
  let s ← settingsAt req "config" "test"
  outcome s.validate fun _ => .obj [("valid", .bool true), ("max_fragment_payload", .nat s.maxPayload),
    ("max_library_payload", .nat s.maxPayload), ("simulation_active", .bool s.simulation.isActive)]

def resendDelayReport (req : Doc) : Run Doc := do
  let s ← settingsAt req "config" "test"
  let n := (← req.natAt "num_sends") % Nat.pow 2 32
  let rtt ← req.natAt "avg_rtt_ns"
  let d ← lift (s.resend.delay n rtt)
  pure (.obj [("delay_ns", .nat (d % Nat.pow 2 64))])

def throttleReport (req : Doc) : Run Doc := do
  let debt ← (← req.field "debt").asFloat "debt"
  let elapsed ← req.natAt "elapsed_ms"
  let rate := (← req.natAt "bps") % Nat.pow 2 32
  let peak := (← req.natAt "peak") % Nat.pow 2 32
  let t := ({ debt, lastUpdate := 0 } : Throttle).update (Span.ofMillis elapsed) rate
  pure (.obj [("throttled", .bool (t.isThrottled rate peak)), ("debt", .float t.debt)])

def shownFragments (xs : List α) : List α :=
  if xs.length ≤ 64 then xs else xs.take 2 ++ xs.drop (xs.length - 2)

def fragmentsReport (req : Doc) : Run Doc := do
  let len ← req.natAt "len"
  if len > 4000000 then bad "len too big for this driver"
  let c ← req.natAt "max_fragment_payload"
  let count ← lift (Fragments.count len c)
  let group ← req.u16At "group_id"
  let data := (List.range len).map fun i => UInt8.ofNat (i % 251)
  let (payload, pool) := ({ max := 10 } : Pool).enqueue data
  let (frags, pool) ← lift (Fragments.split pool { payload, kind := .user .reliableOrdered 0 } group c)
  let inQueue : Doc := if frags.isEmpty then .null else .nat (pool.refs payload)
  let pool := pool.releaseAll (frags.map (·.payload))
  let fragDoc := fun (f : Queued) => match f.fragment with
    | some (t, a, b) => Doc.arr [.nat t.group, .nat t.total, .nat t.index, .nat a, .nat b]
    | none => .null
  pure (.obj [("count", .nat count), ("num", .nat frags.length),
    ("fragments", .arr ((shownFragments frags).map fragDoc)), ("in_queue", inQueue),
    ("recycled", .nat pool.recycledOut)])

def poolReport (req : Doc) : Run Doc := do
  let max ← req.natAt "max"
  let (rs, _) ← runOps (← req.listField "ops") ({ max } : Pool) fun p op => do
    match op.get? "recycle", op.get? "get" with
    | some c, _ => pure (.null, p.recycleStorage { cap := ← c.asNat "recycle" })
    | none, some c =>
      let (buf, p) := p.getStorage (← c.asNat "get")
      pure (.nat buf.cap, p)
    | none, none => bad "unknown pool op"
  pure (results rs)

def releasedStep (q : Released) (op : Doc) : Run Released := do
  let conn := Endpoint.localhost 4000
  match ← op.strField "do" with
  | "debug" => pure (q.debug (← op.text "text"))
  | "warning" => pure (q.warning (← op.text "text"))
  | "error" => pure (q.error (← op.text "text"))
  | "status" => pure (q.statusChanged 0 conn .connected (← op.text "text"))
  | "data" => pure (q.data 0 conn .unreliable 0 (← op.bytes "data"))
  | "approval" => pure (q.approval 0 conn (← op.bytes "data"))
  | "unconnected" => pure (q.unconnected (← op.endpoint "from") (← op.bytes "data"))
  | "discovery" => pure (q.discovery (← op.endpoint "from") (← op.bytes "data"))
  | other => bad s!"unknown op {other}"

def releasedReport (req : Doc) : Run Doc := do
  let enabled ← req.u8At "enabled"
  let q ← (← req.listField "ops").foldlM releasedStep { enabled }
  pure (.obj [("len", .nat q.events.length), ("events", .arr (q.events.map eventDoc))])

def decisionDoc : Option Decision → Doc
  | some (.approve hail) => .arr [.str "approve", .str (summary hail)]
  | some (.deny reason) => .arr [.str "deny", .str reason]
  | none => .null

def okDoc : Doc := .str "ok"

def handleStep (h : Handle) (op : Doc) : Run (Doc × Handle) := do
  let r : Except Fault Handle ← match ← op.strField "do" with
    | "approve" => pure (.ok h.approve)
    | "approve_with_hail" => pure (h.approveWith (← op.bytes "hail"))
    | "deny" => pure (h.deny (← op.text "reason"))
    | "disconnect" => pure (h.requestDisconnect (← op.text "reason"))
    | other => bad s!"unknown op {other}"
  let h := match r with
    | .ok h => h
    | .error _ => h
  let rd ← outcome r fun _ => okDoc
  pure (.obj [("r", rd), ("approval", decisionDoc h.decision),
    ("disconnect_request", Doc.opt .str h.disconnectRequest)], h)

def handleReport (req : Doc) : Run Doc := do
  let remote ← req.endpoint "addr"
  let maxPayload ← req.natAt "max_payload"
  let (rs, h) ← runOps (← req.listField "ops") (Handle.create 0 remote maxPayload) handleStep
  pure (.obj [("results", .arr rs), ("status", .str h.status.name), ("remote", .str remote.toText)])

/-! ### Simulated links -/

def settled (p : Float) : Bool := p == 0.0 || p == 1.0

def deterministic (s : Simulation.Settings) : Bool :=
  settled s.loss && settled s.duplicates && s.randomLatency == 0

/-- The due times of a datagram when every draw is the same number: with probabilities 0 and 1
and no random latency, the draws do not matter. -/
def planAt (s : Simulation.Settings) (now : Nat) (draw : Float) : Except Crash (List Nat) :=
  (·.1) <$> Simulation.plan s now (.const draw)

def planCheck (s : Simulation.Settings) (now n : Nat) : Run Doc := do
  let plans ← (List.range n).mapM fun i =>
    lift (planAt s now ((Float.ofNat i + 0.5) / Float.ofNat n))
  let countOk := fun (p : List Nat) => match p.length with
    | 0 => s.loss > 0.0
    | 1 => s.loss < 1.0 && s.duplicates < 1.0
    | 2 => s.loss < 1.0 && s.duplicates > 0.0
    | _ => false
  let lo := now + s.minLatency
  let inBounds := fun (t : Nat) => lo ≤ t && t ≤ lo + s.randomLatency
  pure (.obj [("counts_valid", .bool (plans.all countOk)),
    ("in_bounds", .bool (plans.all fun p => p.all inBounds))])

def datagramsDoc (ds : List (Endpoint × Bytes)) : Doc :=
  .arr (ds.map fun (e, b) => .arr [.str e.toText, .str (hex b)])

def simulationStep (s : Simulation.Settings) (d : Simulation.Delayed) (op : Doc) :
    Run (Doc × Simulation.Delayed) := do
  let now ← timeAt op
  match ← op.strField "do" with
  | "active" => pure (.bool s.isActive, d)
  | "plan_check" => pure (← planCheck s now (min (← op.natOr "n" 100) 10000), d)
  | other =>
    if !deterministic s then bad "only probabilities 0 and 1 and no random latency are deterministic"
    match other with
    | "plan" => pure (.arr ((← lift (planAt s now 0.5)).map fun t => .nat (Span.toMillis t)), d)
    | "delay" => pure (.null, d.delay now (← op.endpoint "to") (← op.bytes "data"))
    | "send" =>
      let dest ← op.endpoint "to"
      let data ← op.bytes "data"
      let dues ← lift (planAt s now 0.5)
      pure (.null, dues.foldl (fun d t => d.delay t dest data) d)
    | "take_due" =>
      let (ds, d) := d.takeDue now
      pure (datagramsDoc ds, d)
    | "take_all" =>
      let (ds, d) := d.takeAll
      pure (datagramsDoc ds, d)
    | "num_delayed" => pure (.nat d.queue.length, d)
    | other => bad s!"unknown op {other}"

def simulationReport (req : Doc) : Run Doc := do
  let s : Simulation.Settings := {
    loss := ← req.floatOr "loss" 0.0
    duplicates := ← req.floatOr "duplicates" 0.0
    minLatency := ← spanMs req "min_latency_ms" 0
    randomLatency := ← spanMs req "random_latency_ms" 0 }
  let (rs, _) ← runOps (← req.listField "ops") {} (simulationStep s)
  pure (results rs)

end Bench
end ReliableUdp
