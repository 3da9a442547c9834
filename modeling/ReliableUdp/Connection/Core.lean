import ReliableUdp.Connection.Shared
import ReliableUdp.Connection.Handle
import ReliableUdp.Engine.Fragments
import ReliableUdp.Engine.SendWindow
import ReliableUdp.Engine.ReceiveWindow
import ReliableUdp.Engine.Latency
import ReliableUdp.Wire.Datagram
import ReliableUdp.Wire.Payload

/-!
# Connections: state, sending and closing

A connection holds what the protocol keeps for one remote endpoint. Sending drains the queues
high before normal before low, as far as the throttle and each kind's window allow, cutting
large messages into fragments; closing forgets every queued and unacknowledged message.
-/

namespace ReliableUdp

structure Handshake where
  started : Nat
  localHail : Bytes := []
  attempts : Nat := 0
  lastAttempt : Option Nat := none
  awaitingApproval : Bool := false
  responseSent : Bool := false

structure Connection where
  handle : Handle
  status : Status := .none
  initiator : Bool
  writer : Datagram.Writer
  latency : Latency
  sendWindow : SendWindow
  receiveWindow : ReceiveWindow := {}
  assembler : Assembler
  nextGroup : Nat := 0
  handshake : Handshake
  lastSent : Nat
  lingerUntil : Option (Nat × String) := none
  throttle : Throttle

namespace Connection

def remote (c : Connection) : Endpoint := c.handle.remote

def setStatus (c : Connection) (s : Status) (reason : String) : Step Connection := do
  if c.status = s then return c
  Step.emit (·.statusChanged c.handle.id c.remote s reason)
  pure { c with status := s, handle := { c.handle with status := s } }

def create (h : Handle) (initiator : Bool) (hs : Handshake) (now : Nat) : Step Connection := do
  let s ← Step.settings
  let c : Connection := {
    handle := h, initiator, handshake := hs, lastSent := now
    writer := .empty s.mtu
    latency := Latency.start s.rttWeight now
    sendWindow := { window := s.windowSize }
    assembler := { timeout := s.fragmentTimeout }
    throttle := { lastUpdate := now } }
  c.setStatus .connecting ""

def outgoing (h : Handle) (hail : Bytes) (now : Nat) : Step Connection :=
  create h true { started := now, localHail := hail } now

def incoming (h : Handle) (remoteHail : Bytes) (now : Nat) : Step Connection := do
  let approval := (← Step.settings).connectionApproval
  if approval then Step.emit (·.approval h.id h.remote remoteHail)
  create { h with remoteHail } false { started := now, awaitingApproval := approval } now

def writeControl (c : Connection) (k : Control) (payload : Bytes) (now : Nat) : Step Connection := do
  let h ← Step.crash (Header.ofControl k payload.length)
  let w ← Step.crash (c.writer.write h payload)
  pure { c with writer := w, lastSent := now }

def takeDatagrams (c : Connection) : List Bytes × Connection :=
  let (ds, w) := c.writer.take
  (ds, { c with writer := w })

def close (c : Connection) (reason : String) : Step Connection := do
  if c.status = .disconnected then return c
  let (stored, sw) := c.sendWindow.clear
  Step.release stored
  Step.release c.handle.outbound
  let c := { c with
    sendWindow := sw
    receiveWindow := c.receiveWindow.clear
    handle := { c.handle with high := [], normal := [], low := [] }
    lingerUntil := none }
  c.setStatus .disconnected reason

def forciblyClosed (c : Connection) : Step Connection := c.close "Connection forcibly closed"

def writeUser (c : Connection) (m : Queued) (seq : Option Seq) : Step Connection := do
  let data := m.data
  let h ← Step.crash (Header.ofUser m.kind seq data.length m.tag)
  let w ← Step.crash (c.writer.write h data)
  pure { c with writer := w, throttle := c.throttle.charge data.length }

def sendUser (c : Connection) (m : Queued) (now : Nat) : Step Connection := do
  let (seq, sw) ← Step.crash (c.sendWindow.assign m.kind)
  let c ← writeUser { c with sendWindow := sw } m seq
  let c := { c with lastSent := now }
  Step.markSent m.payload
  match seq with
  | some s =>
    if m.kind.isReliable then
      let resend := (← Step.settings).resend
      let rtt ← Step.crash c.latency.avgRtt
      let sw ← Step.crash (c.sendWindow.store m s now resend rtt)
      return { c with sendWindow := sw }
  | none => pure ()
  Step.release [m]
  pure c

def resendDue (c : Connection) (now : Nat) : Step Connection := do
  let s ← Step.settings
  let rtt ← Step.crash c.latency.avgRtt
  let (pass, sw) ← Step.crash (c.sendWindow.resendDue now s.resend rtt)
  let c ← pass.resent.foldlM (fun c (m, seq) => writeUser c m (some seq)) { c with sendWindow := sw }
  let n := pass.resent.length
  let d := pass.dropped.length
  if n > 0 then Step.count fun st => { st with resentMessages := st.resentMessages + n }
  if d > 0 then
    Step.count fun st => { st with droppedMessages := st.droppedMessages + d }
    Step.emit (·.warning
      s!"dropped {d} reliable message(s) to {c.remote.toText} after {s.resend.maxSends} unacknowledged sends")
  Step.release pass.dropped
  pure (if n > 0 then { c with lastSent := now } else c)

abbrev Drain := Bool × List Queued × Connection

/-- A message that needs no cutting: it waits while the throttle holds or its window is full,
else it is sent. -/
def offer (now : Nat) (acc : Drain) (m : Queued) : Step Drain := do
  let (wrote, deferred, c) := acc
  let s ← Step.settings
  if c.throttle.isThrottled s.throttleRate s.throttlePeak then return (wrote, deferred ++ [m], c)
  if ← Step.crash (c.sendWindow.isFull m.kind) then return (wrote, deferred ++ [m], c)
  pure (true, deferred, ← c.sendUser m now)

def drainOne (now maxWhole : Nat) (acc : Drain) (m : Queued) : Step Drain := do
  let (wrote, deferred, c) := acc
  let s ← Step.settings
  if c.throttle.isThrottled s.throttleRate s.throttlePeak then
    return (wrote, deferred ++ [m], c)
  if m.fragment.isNone && m.data.length > maxWhole then
    let sh ← get
    let (frags, pool) ← Step.crash (Fragments.split sh.pool m c.nextGroup s.maxPayload)
    set { sh with pool }
    let c := { c with nextGroup := (c.nextGroup + 1) % 65536 }
    frags.foldlM (offer now) (wrote, deferred, c)
  else offer now acc m

def drainOutbound (c : Connection) (now : Nat) : Step (Bool × Connection) := do
  let s ← Step.settings
  let c := { c with throttle := c.throttle.update now s.throttleRate }
  let maxWhole := c.writer.maxPayload (Header.maxLen - 6)
  let queues := [c.handle.high, c.handle.normal, c.handle.low]
  let c := { c with handle := { c.handle with high := [], normal := [], low := [] } }
  let (wrote, kept, c) ← queues.foldlM (fun (acc : Bool × List (List Queued) × Connection) q => do
    let (wrote, deferred, c) ← q.foldlM (drainOne now maxWhole) (acc.1, [], acc.2.2)
    pure (wrote, acc.2.1 ++ [deferred], c)) (false, [], c)
  pure (wrote, { c with handle := { c.handle with
    high := kept.getD 0 [], normal := kept.getD 1 [], low := kept.getD 2 [] } })

def chunks (n : Nat) (xs : List α) : List (List α) :=
  go xs.length xs
where
  go : Nat → List α → List (List α)
    | 0, _ => []
    | _, [] => []
    | fuel + 1, xs => xs.take n :: go fuel (xs.drop n)

def flushAcks (c : Connection) (now : Nat) : Step Connection := do
  if c.receiveWindow.acks.isEmpty then return c
  let (acks, rw) := c.receiveWindow.takeAcks
  let perMessage := (c.writer.mtu - Header.maxLen) / Payload.ackEntryLen
  (chunks perMessage acks).foldlM (fun c part => c.writeControl .acknowledge (Payload.ack part) now)
    { c with receiveWindow := rw }

def finishDisconnect (c : Connection) (reason : String) (now : Nat) : Step Connection := do
  let c ← match c.status with
    | .connected | .disconnecting => do
      let (_, c) ← c.drainOutbound now
      c.flushAcks now
    | .connecting => pure c
    | .none | .disconnected => return ← c.close reason
  let max := (← Step.settings).maxPayload
  let c ← c.writeControl .disconnect (Wire.putText (Payload.disconnectReason reason max)) now
  c.close reason

/-- A local disconnect; with a linger time, a connected connection keeps sending and
acknowledging for that long first. -/
def disconnect (c : Connection) (reason : String) (now : Nat) : Step Connection := do
  let linger := (← Step.settings).linger
  match c.status with
  | .connected =>
    if linger ≠ 0 then
      let deadline ← Step.crash (Span.after now linger)
      Connection.setStatus { c with lingerUntil := some (deadline, reason) } .disconnecting reason
    else c.finishDisconnect reason now
  | .connecting => c.finishDisconnect reason now
  | .none => c.close reason
  | .disconnecting | .disconnected => pure c

end Connection
end ReliableUdp
