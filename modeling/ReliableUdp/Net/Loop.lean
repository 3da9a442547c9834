import ReliableUdp.Connection.Heartbeat
import ReliableUdp.Net.Socket
import ReliableUdp.Net.Simulation

/-!
# The network loop

One peer's socket, its connections by endpoint, unconnected datagrams and commands. A step runs
every connection's periodic step, sends what they wrote, drops disconnected ones, sends
unconnected and due delayed datagrams, then receives what waits.
-/

namespace ReliableUdp

inductive PeerStatus where
  | notStarted
  | starting
  | running
  | shuttingDown
  | shutDown
  deriving DecidableEq, Repr

def PeerStatus.name : PeerStatus → String
  | .notStarted => "NotStarted"
  | .starting => "Starting"
  | .running => "Running"
  | .shuttingDown => "ShuttingDown"
  | .shutDown => "ShutDown"

/-- A request from the application to the network loop. -/
inductive Command where
  | connect (handle : Nat) (hail : Bytes)
  | unconnectedSend (dest : Endpoint) (payload : Payload)
  | discover (dest : Endpoint)
  | shutdown (reason : String)

structure Network where
  shared : Shared
  status : PeerStatus := .notStarted
  socket : Socket
  connections : List Connection := []
  handles : List Handle := []
  nextHandle : Nat := 0
  unconnected : List (Endpoint × Bytes) := []
  delayed : Simulation.Delayed := {}
  draws : Simulation.Draws
  commands : List Command := []
  senderOpen : Bool := true
  receiverOpen : Bool := true

abbrev Net := StateT Network (Except Crash)

namespace Network

def create (s : Settings) (socket : Socket) (draws : Simulation.Draws) : Network :=
  { shared := Shared.create s, socket, draws }

def settings (n : Network) : Settings := n.shared.settings

def liftStep (x : Step α) : Net α := fun n => do
  let (a, shared) ← x.run n.shared
  pure (a, { n with shared })

def emit (f : Released → Released) : Net Unit := liftStep (Step.emit f)

def newHandle (n : Network) (remote : Endpoint) : Handle × Network :=
  let h := Handle.create n.nextHandle remote n.settings.maxPayload
  (h, { n with handles := n.handles ++ [h], nextHandle := n.nextHandle + 1 })

def handle? (n : Network) (id : Nat) : Option Handle :=
  match n.connections.find? (·.handle.id == id) with
  | some c => some c.handle
  | none => n.handles.find? (·.id == id)

def modifyHandle (n : Network) (id : Nat) (f : Handle → Handle) : Network :=
  { n with
    connections := n.connections.map fun c => if c.handle.id == id then { c with handle := f c.handle } else c
    handles := n.handles.map fun h => if h.id == id then f h else h }

def onConnection (dest : Endpoint) (f : Connection → Step Connection) : Net Bool := do
  let n ← get
  match n.connections.findIdx? (·.remote == dest) with
  | some i =>
    match n.connections[i]? with
    | some c =>
      let c ← liftStep (f c)
      modify fun n => { n with connections := n.connections.set i c }
      pure true
    | none => pure false
  | none => pure false

def countStat (f : Stats → Stats) : Net Unit := liftStep (Step.count f)

def queueUnconnected (dest : Endpoint) (h : Header) (payload : Bytes) : Net Unit :=
  modify fun n => { n with unconnected := n.unconnected ++ [(dest, h.encode ++ payload)] }

def queueControl (dest : Endpoint) (k : Control) (payload : Bytes) : Net Unit := do
  let h ← StateT.lift (Header.ofControl k payload.length)
  queueUnconnected dest h payload

def sendNow (dest : Endpoint) (d : Bytes) : Net Unit := do
  let n ← get
  let (r, socket) := n.socket.send dest d
  set { n with socket }
  match r with
  | .ok () => countStat fun s => { s with sentPackets := s.sentPackets + 1, sentBytes := s.sentBytes + d.length }
  | .error .refused | .error .reset =>
    let _ ← onConnection dest Connection.forciblyClosed
  | .error .other =>
    if n.settings.panicOnSendError then throw (.sendFailed dest.toText Socket.sendFailureText)
    emit (·.warning s!"error sending datagram to {dest.toText}: {Socket.sendFailureText}")

def sendDatagram (dest : Endpoint) (d : Bytes) (now : Nat) : Net Unit := do
  let sim := (← get).settings.simulation
  if sim.isActive then
    let (dues, draws) ← StateT.lift (Simulation.plan sim now (← get).draws)
    modify fun n => { n with delayed := dues.foldl (fun q t => q.delay t dest d) n.delayed, draws }
  else sendNow dest d

def sendAll (ds : List (Endpoint × Bytes)) (now : Nat) : Net Unit :=
  ds.forM fun (dest, d) => sendDatagram dest d now

def sendConnectionDatagrams (now : Nat) : Net Unit := do
  let n ← get
  let out := n.connections.flatMap fun (c : Connection) => c.takeDatagrams.1.map fun d => (c.remote, d)
  let connections := n.connections.map fun (c : Connection) => c.takeDatagrams.2
  set { n with connections }
  sendAll out now

def removeDisconnected : Net Unit :=
  modify fun n =>
    let gone := n.connections.filter (·.status = .disconnected)
    { n with
      connections := n.connections.filter (·.status ≠ .disconnected)
      handles := n.handles ++ gone.map (·.handle) }

def sendUnconnected (now : Nat) : Net Unit := do
  let n ← get
  set { n with unconnected := [] }
  sendAll n.unconnected now

def sendDelayed (now : Nat) : Net Unit := do
  let n ← get
  let (due, delayed) := n.delayed.takeDue now
  set { n with delayed }
  due.forM fun (dest, d) => sendNow dest d

def activeConnections (n : Network) : Nat := n.connections.countP (·.status ≠ .disconnected)

def onConnect (src : Endpoint) (app : String) (hail : Bytes) (now : Nat) : Net Unit := do
  let n ← get
  let s := n.settings
  let refusal :=
    if app ≠ s.appId then some "Wrong application identifier"
    else if !s.acceptIncoming then some "Not accepting incoming connections"
    else if n.activeConnections ≥ s.maxConnections then some "Server is full"
    else none
  match refusal with
  | some reason =>
    emit (·.debug s!"rejecting connection from {src.toText}: {reason}")
    queueControl src .disconnect (Wire.putText reason)
  | none =>
    let h := Handle.create n.nextHandle src s.maxPayload
    set { n with nextHandle := n.nextHandle + 1 }
    let c ← liftStep (Connection.incoming h hail now)
    modify fun n => { n with connections := n.connections ++ [c] }

def onLooseControl (src : Endpoint) (k : Control) (payload : Bytes) (now : Nat) :
    Net (Except DecodeError Unit) := do
  let s := (← get).settings
  match k with
  | .connect =>
    match Payload.readConnect payload with
    | .ok ((app, hail), _) => do onConnect src app hail now; pure (.ok ())
    | .error e => pure (.error e)
  | .discovery =>
    match Wire.readText payload with
    | .ok (app, _) => do
      if s.answerDiscovery && app == s.appId then queueControl src .discoveryResponse s.discoveryData
      pure (.ok ())
    | .error e => pure (.error e)
  | .discoveryResponse => do
    emit (·.discovery src payload)
    pure (.ok ())
  | _ => pure (.ok ())

def onMessage (src : Endpoint) (h : Header) (payload : Bytes) (now : Nat) : Net Unit := do
  if ← onConnection src fun c => c.onMessage h payload now then return
  match h.kind with
  | .control =>
    let some k := h.control | pure ()
    match ← onLooseControl src k payload now with
    | .error e =>
      let name := Connection.controlDebug h.control
      emit (·.warning s!"malformed library message {name} from {src.toText}: {e.message}")
    | .ok () => pure ()
  | .unconnected => emit (·.unconnected src payload)
  | .user _ _ => emit (·.debug s!"ignoring user message from unconnected endpoint {src.toText}")

def onDatagram (src : Endpoint) (d : Bytes) (now : Nat) : Net Unit :=
  (Datagram.read d).forM fun r => match r with
    | .ok (h, payload) => onMessage src h payload now
    | .error e => emit (·.warning s!"malformed datagram from {src.toText}: {e.message}")

def receiveFor (now : Nat) : Nat → Net Unit
  | 0 => pure ()
  | fuel + 1 => do
    let n ← get
    let (r, socket) := n.socket.receive
    set { n with socket }
    match r with
    | some (.ok (src, d)) =>
      countStat fun s => { s with
        receivedPackets := s.receivedPackets + 1, receivedBytes := s.receivedBytes + d.length }
      onDatagram src d now
      receiveFor now fuel
    | some (.error .reset) => receiveFor now fuel
    | some (.error _) | none => pure ()

def receive (now : Nat) : Net Unit := do
  receiveFor now ((← get).socket.inbox.length + 1)

def step (now : Nat) : Net Unit := do
  let n ← get
  let cs ← liftStep (n.connections.mapM fun c => c.heartbeat now)
  modify fun n => { n with connections := cs }
  sendConnectionDatagrams now
  removeDisconnected
  sendUnconnected now
  sendDelayed now
  receive now

/-- Connects with a handle the application made; an older connection to the same endpoint is
closed first. -/
def connect (id : Nat) (hail : Bytes) (now : Nat) : Net Unit := do
  let n ← get
  let some h := n.handles.find? (·.id == id) | pure ()
  let old := n.connections.filter (·.remote == h.remote)
  let closed ← liftStep (old.mapM fun c => c.close "Reconnecting")
  let c ← liftStep (Connection.outgoing h hail now)
  modify fun n => { n with
    handles := n.handles.filter (·.id != id) ++ closed.map (·.handle)
    connections := n.connections.filter (·.remote != h.remote) ++ [c] }

def runCommand (now : Nat) : Command → Net Unit
  | .connect id hail => connect id hail now
  | .unconnectedSend dest payload => do
    let h ← StateT.lift (Header.ofUser .unconnected none payload.data.length none)
    queueUnconnected dest h payload.data
    liftStep (Step.markSent payload)
    modify fun n => { n with shared := { n.shared with pool := n.shared.pool.release payload } }
  | .discover dest => do queueControl dest .discovery (Wire.putText (← get).settings.appId)
  | .shutdown _ => pure ()

def runCommands (now : Nat) : List Command → Net (Option String × List Command)
  | [] => pure (none, [])
  | .shutdown reason :: rest => pure (some reason, rest)
  | c :: rest => do
    runCommand now c
    runCommands now rest

def processCommands (now : Nat) : Net (Option String) := do
  let n ← get
  set { n with commands := [] }
  let (reason, rest) ← runCommands now n.commands
  modify fun n => { n with commands := rest ++ n.commands }
  match reason with
  | some r => pure (some r)
  | none => pure (if (← get).senderOpen then none else some "Peer dropped")

def shutdown (reason : String) (now : Nat) : Net Unit := do
  modify fun n => { n with status := .shuttingDown }
  let n ← get
  let cs ← liftStep (n.connections.mapM fun c => c.finishDisconnect reason now)
  modify fun n => { n with connections := cs }
  sendConnectionDatagrams now
  sendUnconnected now
  let n ← get
  let (all, delayed) := n.delayed.takeAll
  set { n with delayed }
  all.forM fun (dest, d) => sendNow dest d
  modify fun n => { n with handles := n.handles ++ n.connections.map (·.handle), connections := [] }

end Network
end ReliableUdp
