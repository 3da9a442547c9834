import ReliableUdp.Connection.Core

/-!
# Connections: handshake and received messages

Connect, ConnectResponse and ConnectionEstablished make the handshake. A control message is
decoded first, and one that does not decode changes nothing; application messages pass the
receive window and the fragment assembler before they are released.
-/

namespace ReliableUdp
namespace Connection

def sendConnectResponse (c : Connection) (now : Nat) : Step Connection :=
  Connection.writeControl { c with handshake := { c.handshake with lastAttempt := some now } }
    .connectResponse (Wire.putBytes c.handshake.localHail) now

def established (c : Connection) (now : Nat) : Step Connection :=
  Connection.setStatus { c with latency := c.latency.onResponse now } .connected ""

def applyDecision (c : Connection) (d : Decision) (now : Nat) : Step Connection := do
  let c := { c with handshake := { c.handshake with awaitingApproval := false } }
  match d with
  | .approve hail => pure { c with handshake := { c.handshake with localHail := hail } }
  | .deny reason =>
    let c ← c.writeControl .disconnect (Wire.putText reason) now
    c.close reason

/-- A Connect for an existing connection: the remote side missed our ConnectResponse. -/
def onRepeatedConnect (c : Connection) (now : Nat) : Step Connection :=
  if !c.initiator && c.status = .connecting && c.handshake.responseSent then c.sendConnectResponse now
  else pure c

def onConnectResponse (c : Connection) (hail : Bytes) (now : Nat) : Step Connection := do
  if !c.initiator then return c
  match c.status with
  | .connecting =>
    let c := { c with handle := { c.handle with remoteHail := hail } }
    let c ← c.writeControl .connectionEstablished [] now
    let latency := c.latency.seed (now - c.handshake.started)
    let rtt ← Step.crash latency.avgRtt
    Connection.established { c with latency, handle := { c.handle with rtt } } now
  | .connected => c.writeControl .connectionEstablished [] now
  | _ => pure c

def onConnectionEstablished (c : Connection) (now : Nat) : Step Connection :=
  if !c.initiator && c.status = .connecting && c.handshake.responseSent then c.established now
  else pure c

def onPong (c : Connection) (id now : Nat) : Step Connection := do
  let latency := c.latency.onPong id now
  let rtt ← Step.crash latency.avgRtt
  pure { c with latency, handle := { c.handle with rtt } }

def onAck (now : Nat) (c : Connection) (entry : Seq × Nat) : Step Connection := do
  let (m, sw) := c.sendWindow.ack entry.1 entry.2
  match m with
  | some m =>
    Step.release [m]
    pure { c with sendWindow := sw, latency := c.latency.onResponse now }
  | none => pure { c with sendWindow := sw }

def decodeThen (payload : Bytes) (r : Reader α) (act : α → Step Connection) :
    Step (Except DecodeError Connection) :=
  match r payload with
  | .ok (a, _) => do pure (.ok (← act a))
  | .error e => pure (.error e)

def onControl (c : Connection) (k : Control) (payload : Bytes) (now : Nat) :
    Step (Except DecodeError Connection) := do
  match k with
  | .connect => decodeThen payload Payload.readConnect fun _ => c.onRepeatedConnect now
  | .connectResponse => decodeThen payload Wire.readBytes fun hail => c.onConnectResponse hail now
  | .connectionEstablished => do pure (.ok (← c.onConnectionEstablished now))
  | .disconnect => decodeThen payload Wire.readText fun reason => c.close reason
  | .keepAlive | .discovery | .discoveryResponse => pure (.ok c)
  | .ping => decodeThen payload Payload.readPing fun id => c.writeControl .pong (Payload.ping id) now
  | .pong => decodeThen payload Payload.readPing fun id => c.onPong id now
  | .acknowledge => decodeThen payload Payload.readAck fun entries => entries.foldlM (onAck now) c

def release (c : Connection) (m : Inbound) (now : Nat) : Step Connection := do
  let .user method channel := m.kind | pure c
  let (data, c) ← match m.fragment with
    | none => pure (some m.data, c)
    | some tag => do
      let (r, assembler) ← Step.crash (c.assembler.add tag m.data now)
      let c := { c with assembler }
      match r with
      | .ok d => pure (d, c)
      | .error e =>
        Step.emit (·.warning s!"fragment from {c.remote.toText}: {e.message}")
        pure (none, c)
  if let some d := data then
    Step.count fun s => { s with receivedMessages := s.receivedMessages + 1 }
    Step.emit (·.data c.handle.id c.remote method channel d)
  pure c

def onUser (c : Connection) (h : Header) (payload : Bytes) (now : Nat) : Step Connection := do
  let c ← if c.status = .connecting then
      if !c.initiator && c.handshake.responseSent then c.established now
      else
        Step.emit (·.debug s!"ignoring user message from {c.remote.toText} before the handshake completed")
        return c
    else pure c
  let (_, delivered, rw) ← Step.crash
    (c.receiveWindow.receive { kind := h.kind, seq := h.seq, fragment := h.fragment, data := payload } now)
  delivered.foldlM (fun c m => c.release m now) { c with receiveWindow := rw }

def controlDebug : Option Control → String
  | some k => "Some(" ++ k.name ++ ")"
  | none => "None"

def onMessage (c : Connection) (h : Header) (payload : Bytes) (now : Nat) : Step Connection := do
  if c.status = .disconnected then return c
  match h.kind with
  | .control =>
    let some k := h.control | pure c
    match ← c.onControl k payload now with
    | .ok c => pure c
    | .error e =>
      let name := controlDebug h.control
      Step.emit (·.warning s!"malformed library message {name} from {c.remote.toText}: {e.message}")
      pure c
  | .unconnected =>
    Step.emit (·.unconnected c.remote payload)
    pure c
  | .user _ _ => c.onUser h payload now

end Connection
end ReliableUdp
