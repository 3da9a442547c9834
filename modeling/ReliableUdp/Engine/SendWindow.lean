import ReliableUdp.Buffers.Queued
import ReliableUdp.Settings

/-!
# The send window

Per kind, the next sequence number and the reliable messages sent but not acknowledged. A kind
takes no new message while it holds `window` of them; a stored message is resent when due until
it was sent `maxSends` times, then dropped, and `earliest` lets a pass skip its work.
-/

namespace ReliableUdp

structure Stored where
  msg : Queued
  seq : Seq
  sends : Nat
  nextResend : Nat
  deriving Repr

structure SendWindow where
  window : Nat
  nextSeq : Array Seq := Array.replicate Kind.count default
  stored : Array (List Stored) := Array.replicate Kind.count []
  earliest : Option Nat := none
  deriving Repr

structure ResendPass where
  resent : List (Queued × Seq) := []
  dropped : List Queued := []

namespace SendWindow

def storedOf (w : SendWindow) (raw : Nat) : List Stored := w.stored.getD raw []

def isFull (w : SendWindow) (k : Kind) : Except Crash Bool := do
  if !k.isReliable then return false
  pure ((w.storedOf (← k.slot)).length ≥ w.window)

def count (w : SendWindow) : Nat := w.stored.foldl (fun n l => n + l.length) 0

def assign (w : SendWindow) (k : Kind) : Except Crash (Option Seq × SendWindow) := do
  if ← k.carriesSeq then
    let raw ← k.slot
    let s := w.nextSeq.getD raw default
    pure (some s, { w with nextSeq := w.nextSeq.setIfInBounds raw s.next })
  else pure (none, w)

def minOpt (a : Option Nat) (t : Nat) : Nat := match a with
  | some e => min e t
  | none => t

def store (w : SendWindow) (msg : Queued) (seq : Seq) (now : Nat) (r : ResendSchedule) (rtt : Nat) :
    Except Crash SendWindow := do
  if !msg.kind.isReliable then throw .notReliable
  let delay ← r.delay 1 rtt
  let next ← Span.after now delay
  let raw ← msg.kind.slot
  pure { w with
    earliest := some (minOpt w.earliest next)
    stored := w.stored.setIfInBounds raw (w.storedOf raw ++ [{ msg, seq, sends := 1, nextResend := next }]) }

/-- One stored message at a resend pass: kept as it is, dropped, or resent and rescheduled. -/
def visit (now : Nat) (r : ResendSchedule) (rtt : Nat) (acc : List Stored × ResendPass × Option Nat)
    (s : Stored) : Except Crash (List Stored × ResendPass × Option Nat) := do
  let (kept, pass, earliest) := acc
  if s.nextResend > now then
    pure (kept ++ [s], pass, some (minOpt earliest s.nextResend))
  else if s.sends ≥ r.maxSends then
    pure (kept, { pass with dropped := pass.dropped ++ [s.msg] }, earliest)
  else
    let pass := { pass with resent := pass.resent ++ [(s.msg, s.seq)] }
    let sends := s.sends + 1
    let delay ← r.delay sends rtt
    let s := { s with sends, nextResend := ← Span.after now delay }
    pure (kept ++ [s], pass, some (minOpt earliest s.nextResend))

/-- Resends every stored message that is due, kinds in order of their numbers, messages in
the order they were stored. -/
def resendDue (w : SendWindow) (now : Nat) (r : ResendSchedule) (rtt : Nat) :
    Except Crash (ResendPass × SendWindow) := do
  match w.earliest with
  | some t => if t > now then return ({}, w)
  | none => return ({}, w)
  let step := fun (acc : Array (List Stored) × ResendPass × Option Nat) (lst : List Stored) => do
    let (done, pass, earliest) := acc
    let (kept, pass, earliest) ← lst.foldlM (visit now r rtt) ([], pass, earliest)
    pure (done.push kept, pass, earliest)
  let (stored, pass, earliest) ← w.stored.foldlM step (#[], {}, none)
  pure (pass, { w with stored, earliest })

def ack (w : SendWindow) (seq : Seq) (raw : Nat) : Option Queued × SendWindow :=
  if raw ≥ Kind.count then (none, w)
  else
    let lst := w.storedOf raw
    match lst.findIdx? (·.seq == seq) with
    | some i =>
      let w := { w with stored := w.stored.setIfInBounds raw (lst.eraseIdx i) }
      let w := if w.stored.all (·.isEmpty) then { w with earliest := none } else w
      ((lst[i]?).map (·.msg), w)
    | none => (none, w)

def clear (w : SendWindow) : List Queued × SendWindow :=
  (w.stored.toList.flatten.map (·.msg),
    { w with stored := Array.replicate Kind.count [], earliest := none })

end SendWindow
end ReliableUdp
