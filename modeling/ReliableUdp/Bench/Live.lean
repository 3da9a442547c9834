import ReliableUdp.Bench.PeerOps

/-!
# Bench: peers on their own sockets and threads

Peers on sockets bound on 127.0.0.1 turn once a millisecond while the application waits, for
five seconds at most (`timeout`). The sockets carry no datagram from one peer to another.
-/

namespace ReliableUdp
namespace Bench

def ephemeralPort : Nat := 49152

def bindable : Endpoint → Bool
  | .v4 os _ => os.head? == some 127 || os == [0, 0, 0, 0]
  | .v6 segs _ _ => segs == [0, 0, 0, 0, 0, 0, 0, 1] || segs.all (· == 0)

def rebind : Endpoint → Nat → Endpoint
  | .v4 os _, p => .v4 os p
  | .v6 segs _ scope, p => .v6 segs p scope

def isBroadcast (e : Endpoint) : Bool := e matches .v4 [255, 255, 255, 255] _

/-- A peer whose loop runs by itself once started. -/
structure LivePeer where
  net : Network
  spawned : Bool := false
  crashed : Bool := false

inductive StartError where
  | refused (f : Fault)
  | bind (addr : Endpoint)

namespace LivePeer

def create (s : Settings) : Run LivePeer :=
  match s.validate with
  | .ok () => pure { net := Network.create s { address := .localhost 0 } (.const 0.5) }
  | .error f => bad f.message

def start (p : LivePeer) (bind : Endpoint) (port : Nat) : Except StartError (Endpoint × LivePeer) :=
  if p.net.status ≠ .notStarted then .error (.refused (.request .alreadyStarted))
  else if !bindable bind then .error (.bind bind)
  else
    let addr := if bind.port == 0 then rebind bind port else bind
    let socket : Socket := { address := addr }
    .ok (addr, { p with net := { p.net with socket, status := .starting }, spawned := true })

def threadRunning (p : LivePeer) : Bool := p.spawned && !p.crashed && p.net.status ≠ .shutDown

def turn (p : LivePeer) (now : Nat) : LivePeer :=
  if !p.threadRunning then p
  else
    let n := if p.net.status = .starting then { p.net with status := .running } else p.net
    match loopTurn { n with socket := { n.socket with sent := #[] } } now with
    | .ok (_, n) => { p with net := n }
    | .error _ => { p with crashed := true }

def refusing (p : LivePeer) (dest : Endpoint) : LivePeer :=
  if isBroadcast dest then
    { p with net := { p.net with socket := { p.net.socket with failing := p.net.socket.failing ++ [(dest, .other)] } } }
  else p

def request (p : LivePeer) (r : Request) : Except Fault Unit × LivePeer :=
  let (x, net) := r.run p.net
  (x, { p with net })

def drop (p : LivePeer) : LivePeer := { p with net := { p.net with senderOpen := false } }

def events (p : LivePeer) : List Event := p.net.shared.released.events

end LivePeer

/-- Turns every `turn` a millisecond apart until `done` holds, for at most `fuel` turns. -/
def waitFor (turn : σ → Nat → σ) (done : σ → Bool) : Nat → Nat → σ → Option (Nat × σ)
  | now, 0, s => if done s then some (now, s) else none
  | now, fuel + 1, s => if done s then some (now, s) else waitFor turn done (now + Span.ofMillis 1) fuel (turn s now)

def waitTurns : Nat := 5000

def waited (r : Option (Nat × σ)) : Run (Nat × σ) :=
  match r with
  | some x => pure x
  | none => .error .timeout

def startOrFail (p : LivePeer) (port : Nat) : Run (Endpoint × LivePeer) :=
  match p.start (.localhost 0) port with
  | .ok x => pure x
  | .error _ => bad "the peer did not start"

def startScenario (app : String) : Run Doc := do
  let p ← LivePeer.create { appId := app }
  let before := p.net.status.name
  let (addr, p) ← startOrFail p ephemeralPort
  let localOk := p.net.socket.address == addr && addr.port ≠ 0
  let again := match p.start (.localhost 0) ephemeralPort with
    | .error (.refused f) => faultDoc f
    | _ => okDoc
  let (now, p) ← waited (waitFor LivePeer.turn (·.net.status = .running) 0 waitTurns p)
  let p := { p with net := Peer.shutdown true "bye" p.net }
  let (_, p) ← waited (waitFor LivePeer.turn (·.net.status = .shutDown) now waitTurns p)
  let (r, p) := p.request (Peer.sendUnconnected true [1] (.localhost 9))
  pure (.obj [("before", .str before), ("local_ok", .bool localOk),
    ("start_again", again), ("running", .bool true), ("shut_down", .bool true),
    ("send_after_shutdown", ← outcome r fun _ => okDoc), ("status", .str p.net.status.name)])

def dropScenario (app : String) : Run Doc := do
  let (_, p) ← startOrFail (← LivePeer.create { appId := app }) ephemeralPort
  let (now, p) ← waited (waitFor LivePeer.turn (·.net.status = .running) 0 waitTurns p)
  let (_, _) ← waited (waitFor LivePeer.turn (!·.threadRunning) now waitTurns p.drop)
  pure (.obj [("running", .bool true), ("dropped", .bool true)])

def bindScenario (app : String) (bind : Endpoint) : Run Doc := do
  match (← LivePeer.create { appId := app }).start bind ephemeralPort with
  | .ok (addr, p) => pure (.obj [("start_failed", .bool false), ("status", .str p.net.status.name),
      ("local_addr", .str addr.toText)])
  | .error _ => pure (.obj [("start_failed", .bool true), ("status", .str PeerStatus.notStarted.name),
      ("local_addr", .null)])

def socketScenario : Doc :=
  let addr := rebind (.localhost 0) ephemeralPort
  let (r, _) := ({ address := addr } : Socket).receive
  .obj [("loopback", .bool (addr matches .v4 (127 :: _) _)), ("port_assigned", .bool (addr.port ≠ 0)),
    ("recv_empty", .str (if r.isNone then "WouldBlock" else "data"))]

def bothTurn (ps : LivePeer × LivePeer) (now : Nat) : LivePeer × LivePeer := (ps.1.turn now, ps.2.turn now)

def discoveryScenario (app : String) (response data : Bytes) : Run Doc := do
  let s : Settings := { appId := app, acceptIncoming := true, answerDiscovery := true, discoveryData := response }
  let (serverAddr, server) ← startOrFail (← LivePeer.create s) ephemeralPort
  let (clientAddr, client) ← startOrFail (← LivePeer.create { appId := app }) (ephemeralPort + 1)
  let (now, (server, client)) ← waited (waitFor bothTurn
    (fun ps => ps.1.net.status = .running && ps.2.net.status = .running) 0 waitTurns (server, client))
  let (_, client) := client.request (Peer.discover true serverAddr)
  let found := fun (ps : LivePeer × LivePeer) => ps.2.events.any (·.kind = .discovery)
  let (now, (server, client)) ← waited (waitFor bothTurn found now waitTurns (server, client))
  let (_, client) := client.request (Peer.sendUnconnected true data serverAddr)
  let got := fun (ps : LivePeer × LivePeer) => ps.1.events.any (·.kind = .unconnected)
  let (_, (server, client)) ← waited (waitFor bothTurn got now waitTurns (server, client))
  let first := fun (p : LivePeer) (k : EventKind) => (p.events.find? (·.kind = k)).map fun e =>
    (e.sender, e.data)
  let entry := fun (x : Option (Option Endpoint × Bytes)) (who : Endpoint) => match x with
    | some (src, d) => Doc.arr [.bool (src == some who), .str (hex d)]
    | none => .null
  pure (.obj [("discovery", entry (first client .discovery) serverAddr),
    ("unconnected", entry (first server .unconnected) clientAddr),
    ("client_sent_some", .bool (client.net.shared.stats.sentPackets > 0))])

def silentScenario (app : String) : Run Doc := do
  let s : Settings := { appId := app, handshakeRetry := Span.ofMillis 20, maxHandshakeAttempts := 2 }
  let silent := rebind (.localhost 0) ephemeralPort
  let (_, p) ← startOrFail (← LivePeer.create s) (ephemeralPort + 1)
  let (id, net) ← match Peer.connect p.net true silent [] with
    | .ok x => pure x
    | .error _ => bad "the peer did not connect"
  let p := { p with net }
  let (_, p) ← waited (waitFor LivePeer.turn (fun p => Peer.statusOf p.net id = .disconnected) 0 waitTurns p)
  let reason := p.events.findSome? fun e => match e.kind, e.handle with
    | .status .disconnected r, some h => if h == id then some r else none
    | _, _ => none
  let (r, _) := p.request (Peer.sendMessage [1] id .reliableOrdered 0 .normal)
  pure (.obj [("reason", match reason with | some r => .str r | none => .null),
    ("status", .str (Peer.statusOf p.net id).name), ("send", ← outcome r fun _ => okDoc)])

def exchangeScenario (app : String) (hail : Bytes) : Run Doc := do
  let s : Settings := { appId := app, acceptIncoming := true, connectionApproval := true }
  let (serverAddr, server) ← startOrFail (← LivePeer.create s) ephemeralPort
  let (_, client) ← startOrFail (← LivePeer.create { appId := app }) (ephemeralPort + 1)
  let (id, net) ← match Peer.connect client.net true serverAddr hail with
    | .ok x => pure x
    | .error _ => bad "the peer did not connect"
  let client := { client with net }
  let asked := fun (ps : LivePeer × LivePeer) => ps.1.events.any (·.kind = .approval)
  let (_, (_, client)) ← waited (waitFor bothTurn asked 0 waitTurns (server, client))
  pure (.obj [("hail", .str (hex hail)), ("connected", .str (Peer.statusOf client.net id).name)])

def panicScenario (app : String) (dest : Endpoint) : Run Doc := do
  let (_, p) ← startOrFail (← LivePeer.create { appId := app, panicOnSendError := true }) ephemeralPort
  let p := p.refusing dest
  let (_, p) := p.request (Peer.sendUnconnected true [1] dest)
  let (_, p) ← waited (waitFor LivePeer.turn (!·.threadRunning) 0 waitTurns p)
  pure (.obj [("thread_finished", .bool p.crashed)])

def liveReport (req : Doc) : Run Doc := do
  let app := req.strOr "app" "test"
  match ← req.strField "scenario" with
  | "start" => startScenario app
  | "drop_running" => dropScenario app
  | "bind_error" => bindScenario app (← req.endpoint "bind")
  | "socket" => pure socketScenario
  | "unconnected_and_discovery" => discoveryScenario app (← req.bytesOr "response") (← req.bytesOr "data")
  | "connect_without_answer" => silentScenario app
  | "end_to_end" => exchangeScenario app (← req.bytesOr "hail")
  | "network_thread_panics" => panicScenario app (← req.endpoint "to")
  | other => bad s!"unknown scenario {other}"

end Bench
end ReliableUdp
