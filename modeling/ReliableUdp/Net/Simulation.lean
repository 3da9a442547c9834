import ReliableUdp.Settings
import ReliableUdp.Net.Endpoint

/-!
# Simulated network conditions

A datagram is lost with probability `loss`, or goes out once or twice, each copy after
`minLatency` plus a random share of `randomLatency`. Delayed datagrams wait by due time, equal
times in the order they were queued.
-/

namespace ReliableUdp
namespace Simulation

structure Draws where
  draw : Nat → Float
  used : Nat := 0

def Draws.next (r : Draws) : Float × Draws := (r.draw r.used, { r with used := r.used + 1 })

def Draws.const (x : Float) : Draws := { draw := fun _ => x }

/-- Due times of one datagram sent at `now`, and the source after the draws taken: one for loss
when loss is on, one for duplication when that is on, and one for the latency of each copy. -/
def plan (s : Settings) (now : Nat) (r : Draws) : Except Crash (List Nat × Draws) := do
  let (lost, r) := if s.loss > 0.0 then (decide (r.next.1 < s.loss), r.next.2) else (false, r)
  if lost then return ([], r)
  let (twice, r) := if s.duplicates > 0.0 then (decide (r.next.1 < s.duplicates), r.next.2) else (false, r)
  (List.range (if twice then 2 else 1)).foldlM (fun acc _ => do
    let early ← Span.after now s.minLatency
    let extra ← Span.scale s.randomLatency acc.2.next.1
    let due ← Span.after early extra
    pure (acc.1 ++ [due], acc.2.next.2)) ([], r)

structure Delayed where
  queue : List (Nat × Endpoint × Bytes) := []
  deriving Repr

namespace Delayed

def delay (d : Delayed) (due : Nat) (dest : Endpoint) (data : Bytes) : Delayed :=
  let before := d.queue.takeWhile (·.1 ≤ due)
  let after := d.queue.dropWhile (·.1 ≤ due)
  { queue := before ++ [(due, dest, data)] ++ after }

def takeDue (d : Delayed) (now : Nat) : List (Endpoint × Bytes) × Delayed :=
  ((d.queue.takeWhile (·.1 ≤ now)).map (·.2), { queue := d.queue.dropWhile (·.1 ≤ now) })

def takeAll (d : Delayed) : List (Endpoint × Bytes) × Delayed := (d.queue.map (·.2), {})

end Delayed
end Simulation
end ReliableUdp
