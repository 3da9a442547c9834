import ReliableUdp.Bench.Parts
import ReliableUdp.Bench.WireOps
import ReliableUdp.Connection.Heartbeat

/-!
# Bench: two connections on a virtual clock

A client connection to `127.0.0.1:6000` and the server connection it causes, from
`127.0.0.1:5000`, each with its own shared state. Messages move between them only when the
bench moves them; rules may drop some on the way. Every move is recorded as traffic.
-/

namespace ReliableUdp
namespace Bench

/-- A rule dropping messages in transit: every message, control messages (optionally of one
kind), or application messages (optionally with one of some sequence numbers), at most `times`
times. -/
structure DropRule where
  what : String
  control : Option Control := none
  seqs : Option (List Nat) := none
  times : Option Nat := none

def DropRule.matches (r : DropRule) (h : Header) : Bool :=
  let kindOk := match r.what, h.kind with
    | "all", _ => true
    | "user", .user _ _ => true
    | "library", .control => r.control.all fun c => h.control == some c
    | _, _ => false
  let seqOk := r.seqs.all fun ss => h.seq.any fun s => ss.contains s.val
  kindOk && seqOk && r.times != some 0

def DropRule.apply : List DropRule → Header → Bool × List DropRule
  | [], _ => (false, [])
  | r :: rs, h =>
    if r.matches h then (true, { r with times := r.times.map (· - 1) } :: rs)
    else
      let (d, rs) := DropRule.apply rs h
      (d, r :: rs)

def dropRuleOf (d : Doc) : Run DropRule := do
  pure {
    what := ← d.strField "what"
    control := ← match d.get? "lib" with
      | some v => some <$> controlOf v
      | none => pure none
    seqs := ← match d.get? "seqs" with
      | some v => do pure (some (← (← v.asList "seqs").mapM fun x => do fits (← x.asNat "seqs") 16 "seqs"))
      | none => pure none
    times := ← d.natOpt "times" }

structure Side where
  conn : Connection
  shared : Shared

def Side.step (s : Side) (f : Connection → Step Connection) : Run Side := do
  let (conn, shared) ← lift ((f s.conn).run s.shared)
  pure { conn, shared }

structure PairBench where
  client : Side
  server : Side
  now : Nat := 0
  toServer : List DropRule := []
  toClient : List DropRule := []
  traffic : Array String := #[]
  steps : Nat := 0

namespace PairBench

def side (b : PairBench) (client : Bool) : Side := if client then b.client else b.server

def setSide (b : PairBench) (client : Bool) (s : Side) : PairBench :=
  if client then { b with client := s } else { b with server := s }

def onSide (b : PairBench) (client : Bool) (f : Connection → Step Connection) : Run PairBench := do
  pure (b.setSide client (← (b.side client).step f))

def takeMessages (b : PairBench) (client : Bool) : List (Header × Bytes) × PairBench :=
  let s := b.side client
  let (ds, conn) := s.conn.takeDatagrams
  let msgs := ds.flatMap fun d => (Datagram.read d).filterMap fun r => match r with
    | .ok m => some m
    | .error _ => none
  (msgs, b.setSide client { s with conn })

def trafficLine (dropped client : Bool) (h : Header) (payload : Bytes) : String :=
  (if dropped then "x" else "") ++ (if client then "c>s " else "s>c ") ++ h.traceName ++ " " ++ summary payload

def deliver (b : PairBench) (client : Bool) : Run PairBench := do
  let (msgs, b) := b.takeMessages client
  msgs.foldlM (fun b (h, payload) => do
    let rules := if client then b.toServer else b.toClient
    let (dropped, rules) := DropRule.apply rules h
    let b := if client then { b with toServer := rules } else { b with toClient := rules }
    let b := { b with traffic := b.traffic.push (trafficLine dropped client h payload) }
    if dropped then pure b
    else b.onSide (!client) fun c => c.onMessage h payload b.now) b

def heartbeat (b : PairBench) (client : Bool) : Run PairBench :=
  b.onSide client fun c => c.heartbeat b.now

def step (b : PairBench) (dt : Nat) : Run PairBench := do
  let b := { b with now := b.now + dt }
  let b ← b.heartbeat true
  let b ← b.heartbeat false
  let b ← b.deliver true
  b.deliver false

def stepLimit : Nat := 20000

def runUntil (b : PairBench) (deadline dt : Nat) (stopOnDisconnect : Bool) : Nat → Nat → Run (Nat × PairBench)
  | 0, n => pure (n, b)
  | fuel + 1, n =>
    if b.now < deadline && !(stopOnDisconnect && b.client.conn.status = .disconnected) then do
      if b.steps + 1 > stepLimit then bad "too many steps"
      let b ← { b with steps := b.steps + 1 }.step dt
      runUntil b deadline dt stopOnDisconnect fuel (n + 1)
    else pure (n, b)

end PairBench

def sortRuns (p : Event → Bool) (key : Event → String) (es : List Event) : List Event :=
  let sorted := fun (run : List Event) => run.mergeSort fun a b => !(key b < key a)
  let (done, run) := es.foldl (fun (acc : List Event × List Event) e =>
    if p e then (acc.1, acc.2 ++ [e]) else (acc.1 ++ sorted acc.2 ++ [e], [])) ([], [])
  done ++ sorted run

def isGroupDrop (e : Event) : Bool :=
  match e.kind with
  | .debug t => t.startsWith "dropping incomplete fragment group"
  | _ => false

def statsDoc (s : Stats) : Doc :=
  .arr [.nat s.sentMessages, .nat s.receivedMessages, .nat s.resentMessages, .nat s.droppedMessages]

def Side.report (s : Side) : Doc × Side :=
  let (events, released) := s.shared.released.drain
  let events := sortRuns isGroupDrop (fun e => (eventDoc e).render) events
  let c := s.conn
  (.obj [("status", .str c.status.name), ("handle", .str c.handle.status.name),
    ("queued", .nat c.handle.queued), ("stored", .nat c.sendWindow.count),
    ("withheld", .nat c.receiveWindow.withheldCount), ("acks", .nat c.receiveWindow.acks.length),
    ("groups", .nat c.assembler.incomplete), ("rtt_ns", .nat c.handle.rtt),
    ("hail", .str (summary c.handle.remoteHail)), ("stats", statsDoc s.shared.stats),
    ("recycled", .nat s.shared.pool.recycledOut), ("released", .arr (events.map eventDoc))],
    { s with shared := { s.shared with released } })

namespace PairBench

def report (b : PairBench) (head : List (String × Doc)) : Doc × PairBench :=
  let (client, cs) := b.client.report
  let (server, ss) := b.server.report
  (.obj (head ++ [("traffic", .arr (b.traffic.toList.map .str)), ("client", client), ("server", server)]),
    { b with client := cs, server := ss, traffic := #[] })

def faultOr (x : Except Fault Handle) (b : PairBench) (client : Bool) : Run (Doc × PairBench) := do
  let s := b.side client
  let r ← outcome x fun _ => okDoc
  match x with
  | .ok h => pure (r, b.setSide client { s with conn := { s.conn with handle := h } })
  | .error _ => pure (r, b)

def sendOp (b : PairBench) (client : Bool) (op : Doc) : Run (Doc × PairBench) := do
  let data ← op.bytes "data"
  let method ← op.delivery "method"
  let channel ← op.u8At "channel"
  let priority ← match op.get? "priority" with
    | some p => do
      let name ← p.asStr "priority"
      match Priority.ofName? name with
      | some p => pure p
      | none => bad s!"unknown priority {name}"
    | none => pure .normal
  match Kind.user? method channel with
  | none => pure (faultDoc (.channelRange channel method), b)
  | some kind =>
    let s := b.side client
    let (payload, pool) := s.shared.pool.enqueue data
    let conn := { s.conn with handle := s.conn.handle.enqueue { payload, kind } priority }
    pure (okDoc, b.setSide client { conn, shared := { s.shared with pool } })

def injectOp (b : PairBench) (client : Bool) (op : Doc) : Run (Doc × PairBench) := do
  let data ← op.bytes "data"
  let (names, b) ← (Datagram.read data).foldlM (fun (acc : Array Doc × PairBench) r => do
    let (names, b) := acc
    match r with
    | .ok (h, payload) =>
      let b ← b.onSide client fun c => c.onMessage h payload b.now
      pure (names.push (.str h.traceName), b)
    | .error e => pure (names.push (decodeFailure e), b)) (#[], b)
  pure (.arr names.toList, b)

def infoOp (b : PairBench) (client : Bool) : Doc :=
  let h := (b.side client).conn.handle
  .obj [("remote", .str h.remote.toText), ("debug", .str h.debugText), ("eq_clone", .bool true),
    ("eq_other", .bool false)]

def loose (op : Doc) : Bool := op.strOr "side" "client" == "client"

def strict (op : Doc) : Run Bool :=
  match op.strOr "side" "client" with
  | "client" => pure true
  | "server" => pure false
  | other => bad s!"bad side {other}"

def apply (b : PairBench) (op : Doc) : Run (Doc × PairBench) := do
  let onConn : (Bool → Handle → Run (Doc × PairBench)) → Run (Doc × PairBench) := fun k => do
    let client ← strict op
    k client (b.side client).conn.handle
  match ← op.strField "do" with
  | "step" => pure (.null, ← { b with steps := b.steps + 1 }.step (Span.ofMillis (← op.natAt "dt")))
  | "run" =>
    let duration := Span.ofMillis (← op.natAt "duration")
    let dt := Span.ofMillis (← op.natAt "dt")
    if dt = 0 then bad "dt must be positive"
    let stop ← op.boolOr "until_client_disconnected" false
    let (n, b) ← b.runUntil (b.now + duration) dt stop (duration / dt + 1) 0
    pure (.nat n, b)
  | "filter" =>
    let toServer ← (op.itemsOf "to_server").mapM dropRuleOf
    let toClient ← (op.itemsOf "to_client").mapM dropRuleOf
    pure (.null, { b with toServer, toClient })
  | "advance" => pure (.null, { b with now := b.now + Span.ofMillis (← op.natAt "dt") })
  | "heartbeat" => onConn fun client _ => do pure (.null, ← b.heartbeat client)
  | "deliver" => pure (.null, ← b.deliver (loose op))
  | "discard" => onConn fun client _ => do
    let (msgs, b) := b.takeMessages client
    pure (.nat msgs.length, b)
  | "send" => onConn fun client _ => b.sendOp client op
  | "disconnect" => onConn fun client h => do b.faultOr (h.requestDisconnect (← op.text "reason")) client
  | "deny" => onConn fun client h => do b.faultOr (h.deny (← op.text "reason")) client
  | "approve" => onConn fun client h => b.faultOr (.ok h.approve) client
  | "approve_with_hail" => onConn fun client h => do b.faultOr (h.approveWith (← op.bytes "hail")) client
  | "local_disconnect" => onConn fun client _ => do
    let reason ← op.text "reason"
    pure (.null, ← b.onSide client fun c => c.disconnect reason b.now)
  | "finish_disconnect" => onConn fun client _ => do
    let reason ← op.text "reason"
    pure (.null, ← b.onSide client fun c => c.finishDisconnect reason b.now)
  | "close" => onConn fun client _ => do
    let reason ← op.text "reason"
    pure (.null, ← b.onSide client fun c => c.close reason)
  | "forcibly_closed" => onConn fun client _ => do pure (.null, ← b.onSide client Connection.forciblyClosed)
  | "info" => onConn fun client _ => pure (b.infoOp client, b)
  | "inject" => onConn fun client _ => b.injectOp client op
  | other => bad s!"unknown op {other}"

def applyReported (b : PairBench) (op : Doc) : Run (Doc × PairBench) := do
  let name ← op.strField "do"
  let (r, b) ← b.apply op
  pure (b.report [("op", .str name), ("r", r), ("t_ms", .nat (Span.toMillis b.now))])

/-- The client sends its first Connect, which is recorded but not delivered; the server side
is then made as if that Connect had arrived. -/
def start (client server : Settings) (hail : Bytes) : Run PairBench := do
  let cs := Shared.create client
  let (conn, cs) ← lift ((Connection.outgoing (Handle.create 0 (.localhost 6000) client.maxPayload) hail 0).run cs)
  let (conn, cs) ← lift ((conn.heartbeat 0).run cs)
  let ss := Shared.create server
  let (sconn, ss) ← lift ((Connection.incoming (Handle.create 1 (.localhost 5000) server.maxPayload) hail 0).run ss)
  let b : PairBench := { client := { conn, shared := cs }, server := { conn := sconn, shared := ss } }
  let (msgs, b) := b.takeMessages true
  pure { b with traffic := (msgs.map fun (h, p) => trafficLine false true h p).toArray }

end PairBench

def pairReport (req : Doc) : Run Doc := do
  let client ← settingsAt req "client" "test"
  let server ← settingsAt req "server" "test"
  let valid := fun (s : Settings) => match s.validate with
    | .ok () => none
    | .error f => some f
  match valid client, valid server with
  | some f, _ | none, some f => do
    let d ← outcome (.error f : Except Fault Unit) fun _ => .null
    pure (.obj [("config", d)])
  | none, none =>
    let hail ← req.bytesOr "hail"
    let b ← PairBench.start client server hail
    let (first, b) := b.report [("op", .str "init")]
    let (rs, _) ← runOps (← req.listField "ops") b PairBench.applyReported
    pure (results (first :: rs))

end Bench
end ReliableUdp
