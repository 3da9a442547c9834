import ReliableUdp.Connection.Receive

/-!
# Connections: the periodic step

Each step first picks up what the application asked on the handle, then does what the status
calls for: the handshake while connecting, the regular work while connected (time out, ping,
resend, drain, acknowledge, keep alive), sending out the rest while lingering.
-/

namespace ReliableUdp
namespace Connection

def pollRequests (c : Connection) (now : Nat) : Step Connection := do
  let c ← match c.handle.disconnectRequest with
    | some reason => Connection.disconnect { c with handle := { c.handle with disconnectRequest := none } } reason now
    | none => pure c
  match c.handshake.awaitingApproval, c.handle.decision with
  | true, some d => Connection.applyDecision { c with handle := { c.handle with decision := none } } d now
  | _, _ => pure c

def handshakeHeartbeat (c : Connection) (now : Nat) : Step Connection := do
  let s ← Step.settings
  if c.initiator then
    let due := match c.handshake.lastAttempt with
      | none => true
      | some t => now - t ≥ s.handshakeRetry
    if !due then return c
    if c.handshake.attempts ≥ s.maxHandshakeAttempts then return ← c.close "No answer from remote host"
    let hs := { c.handshake with attempts := c.handshake.attempts + 1, lastAttempt := some now }
    Connection.writeControl { c with handshake := hs } .connect (Payload.connect s.appId hs.localHail) now
  else
    let limit ← Step.crash (Span.mulCount s.handshakeRetry s.maxHandshakeAttempts)
    if now - c.handshake.started > limit then return ← c.close "Failed to complete handshake"
    if !c.handshake.awaitingApproval && !c.handshake.responseSent then
      Connection.sendConnectResponse { c with handshake := { c.handshake with responseSent := true } } now
    else pure c

def connectedHeartbeat (c : Connection) (now : Nat) : Step Connection := do
  let s ← Step.settings
  if c.latency.timedOut now s.connectionTimeout then return ← c.close "Timed out"
  let (expired, assembler) := c.assembler.expire now
  for id in expired do
    Step.emit (·.debug s!"dropping incomplete fragment group {id} from {c.remote.toText}")
  let c := { c with assembler }
  let c ← if c.latency.pingDue now s.pingFrequency then
      let (id, latency) := c.latency.pingSent now
      Connection.writeControl { c with latency } .ping (Payload.ping id) now
    else pure c
  let c ← c.resendDue now
  let (wrote, c) ← c.drainOutbound now
  let piggyback := wrote && !c.receiveWindow.acks.isEmpty
  let c ← if piggyback || c.receiveWindow.shouldFlush now s.ackThreshold s.maxAckDelay then
      c.flushAcks now
    else pure c
  if now - c.lastSent ≥ s.keepAliveDelay then c.writeControl .keepAlive [] now else pure c

/-- Lingering: keep sending until everything is acknowledged or the time is up. -/
def lingerHeartbeat (c : Connection) (now : Nat) : Step Connection := do
  let some (deadline, reason) := c.lingerUntil | pure c
  let c ← c.resendDue now
  let (_, c) ← c.drainOutbound now
  if (c.handle.queued = 0 && c.sendWindow.count = 0) || now ≥ deadline then c.finishDisconnect reason now
  else c.flushAcks now

def heartbeat (c : Connection) (now : Nat) : Step Connection := do
  let c ← c.pollRequests now
  match c.status with
  | .connecting => c.handshakeHeartbeat now
  | .connected => c.connectedHeartbeat now
  | .disconnecting => c.lingerHeartbeat now
  | .none | .disconnected => pure c

end Connection
end ReliableUdp
