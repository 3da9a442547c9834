import ReliableUdp.Wire.Header
import ReliableUdp.Crash

/-!
# The receive window

Per kind, the next sequence number expected. A received message is classified by its signed
distance to it (late, duplicate, withheld or accepted), and every reliable numbered message is
acknowledged, since an earlier acknowledgement may have been lost.
-/

namespace ReliableUdp

structure Inbound where
  kind : Kind
  seq : Option Seq := none
  fragment : Option FragmentTag := none
  data : Bytes
  deriving Repr

inductive Verdict where
  | accepted
  | duplicate
  | withheld
  | late
  deriving DecidableEq, Repr

def Verdict.name : Verdict → String
  | .accepted => "Accepted"
  | .duplicate => "Duplicate"
  | .withheld => "Withheld"
  | .late => "Late"

structure ReceiveWindow where
  expected : Array Seq := Array.replicate Kind.count default
  early : List Seq := []
  withheld : Array (List (Seq × Inbound)) := Array.replicate 32 []
  acks : List (Seq × Nat) := []
  oldestAck : Option Nat := none
  deriving Repr

namespace ReceiveWindow

def expectedOf (w : ReceiveWindow) (raw : Nat) : Seq := w.expected.getD raw default

def setExpected (w : ReceiveWindow) (raw : Nat) (s : Seq) : ReceiveWindow :=
  { w with expected := w.expected.setIfInBounds raw s }

def withheldOf (w : ReceiveWindow) (channel : Nat) : List (Seq × Inbound) :=
  w.withheld.getD channel []

def withheldCount (w : ReceiveWindow) : Nat := w.withheld.foldl (fun n l => n + l.length) 0

def queueAck (w : ReceiveWindow) (s : Seq) (raw : Nat) (now : Nat) : ReceiveWindow :=
  { w with acks := w.acks ++ [(s, raw)], oldestAck := some (w.oldestAck.getD now) }

def skipEarly (early : List Seq) (s : Seq) : Nat → List Seq × Seq
  | 0 => (early, s)
  | fuel + 1 => if early.contains s then skipEarly (early.erase s) s.next fuel else (early, s)

def releaseWithheld (held : List (Seq × Inbound)) (s : Seq) :
    Nat → List Inbound × List (Seq × Inbound) × Seq
  | 0 => ([], held, s)
  | fuel + 1 =>
    match held.find? (·.1 == s) with
    | some (_, m) =>
      let (more, rest, next) := releaseWithheld (held.filter (·.1 != s)) s.next fuel
      (m :: more, rest, next)
    | none => ([], held, s)

/-- Classifies a received message; the messages it releases, in delivery order. -/
def receive (w : ReceiveWindow) (msg : Inbound) (now : Nat) :
    Except Crash (Verdict × List Inbound × ReceiveWindow) :=
  match msg.kind with
  | .user method channel =>
    match msg.seq with
    | none => .ok (.accepted, [msg], w)
    | some s => do
      let raw ← msg.kind.byte
      let w := if method.isReliable then w.queueAck s raw now else w
      if raw ≥ Kind.count then throw (.indexOutOfBounds Kind.count raw)
      let expected := w.expectedOf raw
      let rel := s.distance expected
      match method with
      | .unreliable => .ok (.accepted, [msg], w)
      | .unreliableSequenced | .reliableSequenced =>
        if rel < 0 then .ok (.late, [], w) else .ok (.accepted, [msg], w.setExpected raw s.next)
      | .reliableUnordered =>
        if rel < 0 || (rel > 0 && w.early.contains s) then .ok (.duplicate, [], w)
        else if rel > 0 then .ok (.accepted, [msg], { w with early := w.early ++ [s] })
        else
          let (early, next) := skipEarly w.early s.next (w.early.length + 1)
          .ok (.accepted, [msg], { w.setExpected raw next with early })
      | .reliableOrdered =>
        let held := w.withheldOf channel
        if rel < 0 then .ok (.duplicate, [], w)
        else if channel ≥ 32 then .error (.indexOutOfBounds 32 channel)
        else if rel > 0 then
          if (held.find? (·.1 == s)).isSome then .ok (.duplicate, [], w)
          else .ok (.withheld, [], { w with withheld := w.withheld.setIfInBounds channel (held ++ [(s, msg)]) })
        else
          let (more, rest, next) := releaseWithheld held s.next (held.length + 1)
          .ok (.accepted, msg :: more,
            { w.setExpected raw next with withheld := w.withheld.setIfInBounds channel rest })
  | _ => .error .notUserMessage

def shouldFlush (w : ReceiveWindow) (now threshold maxDelay : Nat) : Bool :=
  w.acks.length ≥ threshold ||
    match w.oldestAck with
    | some t => now - t ≥ maxDelay
    | none => false

def takeAcks (w : ReceiveWindow) : List (Seq × Nat) × ReceiveWindow :=
  (w.acks, { w with acks := [], oldestAck := none })

/-- Forgets withheld messages, early numbers and pending acknowledgements; the expected
numbers stay. -/
def clear (w : ReceiveWindow) : ReceiveWindow :=
  { w with withheld := Array.replicate 32 [], early := [], acks := [], oldestAck := none }

end ReceiveWindow
end ReliableUdp
