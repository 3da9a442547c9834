import ReliableUdp.Bench.Parts
import ReliableUdp.Net.Peer

/-!
# Bench: one network loop over a socket fed by hand

Each step runs the queued commands, then one loop step. Datagrams are reported by destination
and events in an order that does not depend on the order connections are visited in.
-/

namespace ReliableUdp
namespace Bench

def endpointLe (a b : Endpoint) : Bool := !(b.lt a)

def sentDoc (ds : List (Endpoint × Bytes)) : Doc :=
  .arr ((ds.mergeSort fun a b => endpointLe a.1 b.1).map fun (dest, d) =>
    .arr [.str dest.toText, .str (summaryUpTo 256 d)])

def normalizedEvents (f : Event → Doc) (es : List Event) : List Doc :=
  let loose := (es.filter (·.sender.isNone)).map f |>.map fun d => (d.render, d)
  let bySender := (es.filter (·.sender.isSome)).mergeSort fun a b => match a.sender, b.sender with
    | some x, some y => endpointLe x y
    | _, _ => true
  (loose.mergeSort fun a b => !(b.1 < a.1)).map (·.2) ++ bySender.map f

def fullStatsDoc (s : Stats) : Doc :=
  .arr ([s.sentBytes, s.sentPackets, s.receivedBytes, s.receivedPackets, s.sentMessages,
    s.receivedMessages, s.resentMessages, s.droppedMessages].map .nat)

def socketFailures (req : Doc) : Run (List (Endpoint × IoKind)) := do
  (← req.listOr "send_failures").mapM fun f => do
    let dest ← f.endpoint "to"
    let name ← f.strField "kind"
    match IoKind.ofName? name with
    | some k => pure (dest, k)
    | none => bad s!"unknown io error kind {name}"

def ioKindAt (d : Doc) : Run IoKind := do
  let name ← d.strField "kind"
  match IoKind.ofName? name with
  | some k => pure k
  | none => bad s!"unknown io error kind {name}"

def priorityAt (op : Doc) : Run Priority := do
  match op.get? "priority" with
  | some p =>
    let name ← p.asStr "priority"
    match Priority.ofName? name with
    | some p => pure p
    | none => bad s!"unknown priority {name}"
  | none => pure .normal

def runNet (n : Network) (x : Net α) : Run (α × Network) := lift (x.run n)

/-- One bench step: the commands, then a loop step; a shutdown ends the loop. -/
def loopTurn (n : Network) (now : Nat) : Run (Option String × Network) := do
  let (reason, n) ← runNet n (Network.processCommands now)
  match reason with
  | some r =>
    let ((), n) ← runNet n (Network.shutdown r now)
    pure (some r, { n with status := .shutDown })
  | none =>
    let ((), n) ← runNet n (Network.step now)
    pure (none, n)

def maxTurns : Nat := 1000

def loopTurns (now : Nat) : Nat → Network → Run (Option String × Network)
  | 0, n => pure (none, n)
  | k + 1, n => do
    let (r, n) ← loopTurn n now
    match r with
    | some _ => pure (r, n)
    | none => loopTurns now k n

def handleAction (sends : Bool) (n : Network) (id : Nat) (op : Doc) : Run (Doc × Network) := do
  let some h := n.handle? id | pure (.str "no such connection", n)
  let update := fun (r : Except Fault Handle) => do
    let d ← outcome r fun _ => okDoc
    match r with
    | .ok h => pure (d, n.modifyHandle id fun _ => h)
    | .error _ => pure (d, n)
  match ← op.strField "action" with
  | "approve" => update (.ok h.approve)
  | "approve_with_hail" => update (h.approveWith (← op.bytes "hail"))
  | "deny" => update (h.deny (← op.text "reason"))
  | "disconnect" => update (h.requestDisconnect (← op.text "reason"))
  | "send" =>
    if !sends then bad "unknown app action send"
    let data ← op.bytesOr "data"
    let m ← op.delivery "method"
    let channel ← op.u8At "channel"
    let p ← priorityAt op
    match Kind.user? m channel with
    | none => pure (faultDoc (.channelRange channel m), n)
    | some kind =>
      let (payload, pool) := n.shared.pool.enqueue data
      let n := { n with shared := { n.shared with pool } }
      pure (okDoc, n.modifyHandle id (·.enqueue { payload, kind } p))
  | other => bad s!"unknown app action {other}"

structure LoopBench where
  net : Network
  made : List Nat := []
  finished : Bool := false

namespace LoopBench

def command (b : LoopBench) (c : Command) : Doc × LoopBench :=
  if b.net.senderOpen then (okDoc, { b with net := { b.net with commands := b.net.commands ++ [c] } })
  else (.str "closed", b)

def apply (b : LoopBench) (op : Doc) : Run (Doc × LoopBench) := do
  let n := b.net
  match ← op.strField "do" with
  | "recv" =>
    let src ← op.endpoint "from"
    let data ← op.bytes "data"
    pure (.null, { b with net := { n with socket := n.socket.push (.ok (src, data)) } })
  | "recv_error" => pure (.null, { b with net := { n with socket := n.socket.push (.error (← ioKindAt op)) } })
  | "connect" =>
    let (h, net) := n.newHandle (← op.endpoint "to")
    pure ({ b with net, made := b.made ++ [h.id] }.command (.connect h.id (← op.bytesOr "hail")))
  | "unconnected_send" =>
    let dest ← op.endpoint "to"
    let (payload, pool) := n.shared.pool.enqueue (← op.bytesOr "data")
    let b := { b with net := { n with shared := { n.shared with pool } } }
    let (r, b) := b.command (.unconnectedSend dest payload)
    if b.net.senderOpen then pure (r, b)
    else pure (r, { b with net := { b.net with shared := { b.net.shared with pool := b.net.shared.pool.release payload } } })
  | "discover" => pure (b.command (.discover (← op.endpoint "to")))
  | "shutdown" => pure (b.command (.shutdown (← op.text "reason")))
  | "drop_commands" => pure (.null, { b with net := { n with senderOpen := false } })
  | "step" =>
    if b.finished then return (.str "terminated", b)
    let now := Span.ofMillis (← op.natAt "t")
    let times := min (← op.natOr "times" 1) maxTurns
    let (r, net) ← loopTurns now times n
    match r with
    | some reason => pure (.obj [("shutdown", .str reason)], { b with net, finished := true })
    | none => pure (.null, { b with net })
  | "app" =>
    let addr ← op.endpoint "addr"
    let id := match n.connections.find? (·.remote == addr) with
      | some c => some c.handle.id
      | none => (b.made.filter fun id => ((n.handle? id).map (·.remote)) == some addr).getLast?
    match id with
    | some id =>
      let (r, net) ← handleAction true n id op
      pure (r, { b with net })
    | none => pure (.str "no such connection", b)
  | other => bad s!"unknown op {other}"

def report (b : LoopBench) (name : String) (r : Doc) : Doc × LoopBench :=
  let (sent, socket) := b.net.socket.takeSent
  let (events, released) := b.net.shared.released.drain
  let n := { b.net with socket, shared := { b.net.shared with released } }
  let conns := (n.connections.mergeSort fun x y => endpointLe x.remote y.remote).map fun c =>
    Doc.arr [.str c.remote.toText, .str c.status.name]
  let handles := b.made.map fun id => Doc.str (Peer.statusOf n id).name
  (.obj [("op", .str name), ("r", r), ("sent", sentDoc sent),
    ("released", .arr (normalizedEvents eventDoc events)), ("conns", .arr conns),
    ("handles", .arr handles), ("status", .str n.status.name), ("stats", fullStatsDoc n.shared.stats)],
    { b with net := n })

def applyReported (b : LoopBench) (op : Doc) : Run (Doc × LoopBench) := do
  let name ← op.strField "do"
  let (r, b) ← b.apply op
  pure (b.report name r)

end LoopBench

def loopReport (req : Doc) : Run Doc := do
  let s ← settingsAt req "config" "test-app"
  if let .error f := s.validate then
    return .obj [("config", ← outcome (.error f : Except Fault Unit) fun _ => .null)]
  if !deterministic s.simulation then bad "only deterministic simulation settings are supported"
  let socket : Socket := { address := .localhost 6000, failing := ← socketFailures req }
  let b : LoopBench := { net := { Network.create s socket (.const 0.5) with status := .running } }
  let (rs, _) ← runOps (← req.listField "ops") b LoopBench.applyReported
  pure (results rs)

end Bench
end ReliableUdp
