import ReliableUdp.Net.Loop

/-!
# The application's side of a peer

Requests are checked before they reach the loop: a message is refused for a channel its method
lacks, then for its size, then when its connection is closing, then when the peer is not running.
-/

namespace ReliableUdp

/-- A request's outcome, with the state it leaves behind either way. -/
abbrev Request := StateM Network (Except Fault Unit)

namespace Peer

def refuse (e : RequestError) : Except Fault α := .error (.request e)

def ensureRunning (n : Network) : Except Fault Unit :=
  match n.status with
  | .notStarted => refuse .notStarted
  | .shuttingDown | .shutDown => refuse .shutDown
  | .starting | .running => .ok ()

def sendCommand (n : Network) (installed : Bool) (cmd : Command) : Except Fault Network := do
  ensureRunning n
  if !installed then refuse .notStarted
  else if !n.receiverOpen then refuse .shutDown
  else pure { n with commands := n.commands ++ [cmd] }

def connect (n : Network) (installed : Bool) (remote : Endpoint) (hail : Bytes) :
    Except Fault (Nat × Network) := do
  let s := n.settings
  let len := Payload.connectLen s.appId hail
  if len > s.maxPayload then refuse (.tooLarge len s.maxPayload)
  let (h, n) := n.newHandle remote
  pure (h.id, ← sendCommand n installed (.connect h.id hail))

def messageKind (s : Settings) (len : Nat) (m : Delivery) (channel : Nat) : Except Fault Kind := do
  if channel ≥ m.channels then refuse (.invalidChannel channel m.channels)
  if len > s.maxMessageSize then refuse (.tooLarge len s.maxMessageSize)
  match Kind.user? m channel with
  | some k => pure k
  | none => .error (.channelRange channel m)

def statusOf (n : Network) (id : Nat) : Status := ((n.handle? id).map (·.status)).getD .none

def sendMessage (data : Bytes) (id : Nat) (m : Delivery) (channel : Nat) (p : Priority) : Request :=
  modifyGet fun n =>
    let r : Except Fault Network := do
      let kind ← messageKind n.settings data.length m channel
      if (statusOf n id).isClosing then refuse .notConnected
      ensureRunning n
      let (payload, pool) := n.shared.pool.enqueue data
      pure ({ n with shared := { n.shared with pool } }.modifyHandle id (·.enqueue { payload, kind } p))
    match r with
    | .ok n => (.ok (), n)
    | .error e => (.error e, n)

def sendToMany (data : Bytes) (ids : List Nat) (m : Delivery) (channel : Nat) (p : Priority) : Request :=
  modifyGet fun n =>
    let r : Except Fault Network := do
      let kind ← messageKind n.settings data.length m channel
      ensureRunning n
      let dest := ids.filter fun id => !(statusOf n id).isClosing
      if dest.isEmpty then
        pure { n with shared := { n.shared with pool := n.shared.pool.recycleOutgoing { data, cap := data.length } } }
      else
        let (payload, pool) := n.shared.pool.enqueue data
        let pool := (dest.foldl (fun pool _ => pool.retain payload) pool).release payload
        let n := { n with shared := { n.shared with pool } }
        pure (dest.foldl (fun n id => n.modifyHandle id (·.enqueue { payload, kind } p)) n)
    match r with
    | .ok n => (.ok (), n)
    | .error e => (.error e, n)

def connections (n : Network) : List Handle := n.connections.map (·.handle)

def sendToAll (data : Bytes) (except : Option Nat) (m : Delivery) (channel : Nat) (p : Priority) :
    Request := do
  let n ← get
  let ids := (connections n).filter (fun h => h.status = .connected && some h.id != except) |>.map (·.id)
  sendToMany data ids m channel p

def sendUnconnected (installed : Bool) (data : Bytes) (dest : Endpoint) : Request :=
  modifyGet fun n =>
    let max := n.settings.maxPayload
    if data.length > max then (refuse (.tooLarge data.length max), n)
    else
      let (payload, pool) := n.shared.pool.enqueue data
      let n := { n with shared := { n.shared with pool } }
      match sendCommand n installed (.unconnectedSend dest payload) with
      | .ok n => (.ok (), n)
      | .error e => (.error e, { n with shared := { n.shared with pool := n.shared.pool.release payload } })

def discover (installed : Bool) (dest : Endpoint) : Request :=
  modifyGet fun n =>
    match sendCommand n installed (.discover dest) with
    | .ok n => (.ok (), n)
    | .error e => (.error e, n)

def shutdown (installed : Bool) (reason : String) (n : Network) : Network :=
  match n.status with
  | .starting | .running =>
    let n := { n with status := .shuttingDown }
    if installed && n.receiverOpen then { n with commands := n.commands ++ [.shutdown reason] } else n
  | .notStarted => { n with status := .shutDown }
  | .shuttingDown | .shutDown => n

def readMessage (n : Network) : Option Event × Network :=
  match n.shared.released.events with
  | [] => (none, n)
  | e :: rest => (some e, { n with shared := { n.shared with released := { n.shared.released with events := rest } } })

end Peer
end ReliableUdp
