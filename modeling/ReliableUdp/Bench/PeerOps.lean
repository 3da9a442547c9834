import ReliableUdp.Bench.Loop

/-!
# Bench: the application's side of a peer

A peer whose loop the bench steps by hand over a socket fed by hand, and a peer that is never
started. The application's requests go through the peer's checks; what they leave behind is
reported after each operation.
-/

namespace ReliableUdp
namespace Bench

structure PeerBench where
  net : Network
  installed : Bool
  localAddr : Option Endpoint
  peerAlive : Bool := true
  loopAlive : Bool := true
  finished : Bool := false
  remembered : List Nat := []

namespace PeerBench

/-- The handle for `to`: a connection's, else the latest remembered one. -/
def find? (b : PeerBench) (dest : Endpoint) : Option Nat :=
  match b.net.connections.find? (·.remote == dest) with
  | some c => some c.handle.id
  | none => (b.remembered.filter fun id => ((b.net.handle? id).map (·.remote)) == some dest).getLast?

def findOrMake (b : PeerBench) (dest : Endpoint) : Nat × PeerBench :=
  match b.find? dest with
  | some id => (id, b)
  | none =>
    let (h, net) := b.net.newHandle dest
    (h.id, { b with net })

def request (b : PeerBench) (r : Request) : Run (Doc × PeerBench) := do
  let (x, net) := r.run b.net
  pure (← outcome x fun _ => okDoc, { b with net })

structure Message where
  data : Bytes
  method : Delivery
  channel : Nat
  priority : Priority

def messageAt (op : Doc) : Run Message := do
  let data ← op.bytesOr "data"
  let method ← op.delivery "method"
  let channel ← op.u8At "channel"
  pure { data, method, channel, priority := ← priorityAt op }

def readEvents (b : PeerBench) (max : Option Nat) : List Event × PeerBench :=
  let events := b.net.shared.released.events
  let taken := match max with
    | some m => events.take m
    | none => events
  let released := { b.net.shared.released with events := events.drop taken.length }
  (taken, { b with net := { b.net with shared := { b.net.shared with released } } })

def eventWithHandle (n : Network) (e : Event) : Doc :=
  match eventDoc e, e.handle.bind n.handle? with
  | .arr xs, some h => .arr (xs ++ [.str h.debugText])
  | d, _ => d

def apply (b : PeerBench) (op : Doc) : Run (Doc × PeerBench) := do
  let n := b.net
  let name ← op.strField "do"
  if !b.peerAlive && !(["recv", "step", "drop_loop", "drop"].contains name) then
    bad "the peer was dropped"
  match name with
  | "recv" =>
    let src ← op.endpoint "from"
    let data ← op.bytes "data"
    pure (.null, { b with net := { n with socket := n.socket.push (.ok (src, data)) } })
  | "step" =>
    if b.finished then return (.str "terminated", b)
    if !b.loopAlive then return (.str "no loop", b)
    let now := Span.ofMillis (← op.natAt "t")
    let (r, net) ← loopTurns now (min (← op.natOr "times" 1) maxTurns) n
    match r with
    | some reason => pure (.obj [("shutdown", .str reason)], { b with net, finished := true })
    | none => pure (.null, { b with net })
  | "drop_loop" => pure (.null, { b with loopAlive := false, net := { n with receiverOpen := false } })
  | "drop" => pure (.null, { b with peerAlive := false, installed := false, net := { n with senderOpen := n.senderOpen && !b.installed } })
  | "connect" =>
    match Peer.connect n b.installed (← op.endpoint "to") (← op.bytesOr "hail") with
    | .ok (id, net) =>
      let debug := ((net.handle? id).map (·.debugText)).getD ""
      pure (.arr [okDoc, .str debug], { b with net, remembered := b.remembered ++ [id] })
    | .error e => pure (← outcome (.error e : Except Fault Unit) fun _ => .null, b)
  | "send" =>
    let (id, b) := b.findOrMake (← op.endpoint "to")
    let m ← messageAt op
    b.request (Peer.sendMessage m.data id m.method m.channel m.priority)
  | "send_to_many" =>
    let tos ← (← op.listField "to").mapM (·.asEndpoint "to")
    let (ids, b) := tos.foldl (fun (acc : List Nat × PeerBench) dest =>
      let (id, b) := acc.2.findOrMake dest
      (acc.1 ++ [id], b)) ([], b)
    let m ← messageAt op
    b.request (Peer.sendToMany m.data ids m.method m.channel m.priority)
  | "send_to_all" =>
    let except ← match op.get? "except" with
      | some e => do pure (b.find? (← e.asEndpoint "except"))
      | none => pure none
    let m ← messageAt op
    b.request (Peer.sendToAll m.data except m.method m.channel m.priority)
  | "send_unconnected" => b.request (Peer.sendUnconnected b.installed (← op.bytesOr "data") (← op.endpoint "to"))
  | "discover" => b.request (Peer.discover b.installed (← op.endpoint "to"))
  | "shutdown" => pure (okDoc, { b with net := Peer.shutdown b.installed (← op.text "reason") n })
  | "read" =>
    let (events, b) := b.readEvents (← op.natOpt "max")
    pure (.arr (normalizedEvents (eventWithHandle b.net) events), b)
  | "app" =>
    match b.find? (← op.endpoint "addr") with
    | some id =>
      let (r, net) ← handleAction false n id op
      pure (r, { b with net })
    | none => pure (.str "no such connection", b)
  | other => bad s!"unknown op {other}"

def connDoc (h : Handle) : Doc :=
  .arr [.str h.remote.toText, .str h.status.name, .nat h.queued, .nat h.rtt, .str (summary h.remoteHail)]

def report (b : PeerBench) (name : String) (r : Doc) : Doc × PeerBench :=
  let (sent, socket) := b.net.socket.takeSent
  let n := { b.net with socket }
  let s := n.shared.stats
  let common := [("op", Doc.str name), ("r", r), ("sent", sentDoc sent), ("status", .str n.status.name),
    ("stats", fullStatsDoc s), ("pending", .nat n.shared.released.events.length),
    ("handles", .arr (b.remembered.map fun id => .str (Peer.statusOf n id).name))]
  let conns := (Peer.connections n).mergeSort fun x y => endpointLe x.remote y.remote
  let peer := if b.peerAlive then
      [("conns", Doc.arr (conns.map connDoc)), ("peer_status", .str n.status.name),
        ("local_addr", endpointDoc b.localAddr),
        ("peer_stats", .arr ([s.sentPackets, s.receivedPackets, s.sentMessages, s.receivedMessages].map .nat)),
        ("app", .str n.settings.appId)]
    else []
  (.obj (common ++ peer), { b with net := n })

def applyReported (b : PeerBench) (op : Doc) : Run (Doc × PeerBench) := do
  let name ← op.strField "do"
  let (r, b) ← b.apply op
  pure (b.report name r)

end PeerBench

def peerReport (req : Doc) : Run Doc := do
  let s ← settingsAt req "config" "test-app"
  if !deterministic s.simulation then bad "only deterministic simulation settings are supported"
  match s.validate with
  | .error f => pure (.obj [("new", ← outcome (.error f : Except Fault Unit) fun _ => .null)])
  | .ok () =>
    let start ← req.boolOr "start" true
    let install ← req.boolOr "install_commands" true
    let started ← req.boolOr "loop_started" true
    let socket : Socket := { address := .localhost 6000, failing := ← socketFailures req }
    let net := Network.create s socket (.const 0.5)
    let b : PeerBench :=
      if start then
        { net := { net with status := if started then .running else .starting }
          installed := install, localAddr := some socket.address }
      else { net := { net with senderOpen := false }, installed := false, localAddr := none }
    let (rs, _) ← runOps (← req.listField "ops") b PeerBench.applyReported
    pure (.obj [("new", okDoc), ("results", .arr rs)])

def looseHandle (n : Network) (status : Status) : Nat × Network :=
  let (h, n) := n.newHandle (.localhost 9)
  (h.id, n.modifyHandle h.id fun h => { h with status })

def peerApiStep (n : Network) (op : Doc) : Run (Doc × Network) := do
  let status := match op.lookup? "conn_status" with
    | some (.str name) => (Status.ofName? name).getD .none
    | _ => .none
  let request := fun (r : Request) (n : Network) => do
    let (x, n) := r.run n
    pure (← outcome x fun _ => okDoc, n)
  let (r, n) ← match ← op.strField "do" with
    | "connect" =>
      match Peer.connect n false (← op.endpoint "to") (← op.bytesOr "hail") with
      | .ok (_, n) => pure (okDoc, n)
      | .error e => pure (← outcome (.error e : Except Fault Unit) fun _ => .null, n)
    | "send" =>
      let (id, n) := looseHandle n status
      let m ← PeerBench.messageAt op
      request (Peer.sendMessage m.data id m.method m.channel m.priority) n
    | "send_to_many" =>
      let count := min (← op.natOr "num_conns" 1) 1000
      let (ids, n) := (List.range count).foldl (fun (acc : List Nat × Network) _ =>
        let (id, n) := looseHandle acc.2 status
        (acc.1 ++ [id], n)) ([], n)
      let m ← PeerBench.messageAt op
      request (Peer.sendToMany m.data ids m.method m.channel m.priority) n
    | "send_to_all" =>
      let m ← PeerBench.messageAt op
      request (Peer.sendToAll m.data none m.method m.channel m.priority) n
    | "send_unconnected" => request (Peer.sendUnconnected false (← op.bytesOr "data") (← op.endpoint "to")) n
    | "discover" => request (Peer.discover false (← op.endpoint "to")) n
    | "shutdown" => pure (okDoc, Peer.shutdown false (← op.text "reason") n)
    | other => bad s!"unknown op {other}"
  pure (.obj [("r", r), ("status", .str n.status.name)], n)

def peerApiReport (req : Doc) : Run Doc := do
  let s ← settingsOf (← req.field "config") "test"
  match s.validate with
  | .error f => pure (.obj [("new", ← outcome (.error f : Except Fault Unit) fun _ => .null)])
  | .ok () =>
    let n := { Network.create s { address := .localhost 0 } (.const 0.5) with senderOpen := false }
    let (rs, _) ← runOps (← req.listField "ops") n peerApiStep
    pure (.obj [("new", okDoc), ("results", .arr rs), ("local_addr", .null)])

end Bench
end ReliableUdp
