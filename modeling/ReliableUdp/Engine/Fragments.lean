import ReliableUdp.Buffers.Queued
import ReliableUdp.Fault

/-!
# Fragments

A message too large for a datagram is cut into at most 65535 pieces of one group. The
assembler collects them per group: a disagreeing count discards the group, a repeat is ignored,
and the last missing piece completes it; groups older than the timeout expire.
-/

namespace ReliableUdp
namespace Fragments

def count (len c : Nat) : Except Crash Nat :=
  if c = 0 then .error .divByZero else .ok ((len + c - 1) / c)

def ranges (len group c : Nat) : Except Crash (List (FragmentTag × Nat × Nat)) := do
  let n ← count len c
  if n > 65535 then throw .countOutOfRange
  pure ((List.range n).map fun i => ({ group, total := n, index := i }, i * c, min (i * c + c) len))

def split (pool : Pool) (msg : Queued) (group c : Nat) : Except Crash (List Queued × Pool) := do
  let rs ← ranges msg.payload.data.length group c
  let frags := rs.map fun r => { msg with fragment := some r }
  let pool := frags.foldl (fun p f => p.retain f.payload) pool
  pure (frags, pool.release msg.payload)

end Fragments

structure Assembler.Group where
  slots : List (Option Bytes)
  received : Nat
  started : Nat
  deriving Repr

/-- Incomplete fragment groups by group number. -/
structure Assembler where
  timeout : Nat
  groups : List (Nat × Assembler.Group) := []
  deriving Repr

namespace Assembler

def find? (a : Assembler) (id : Nat) : Option Assembler.Group :=
  (a.groups.find? (·.1 == id)).map (·.2)

def remove (a : Assembler) (id : Nat) : Assembler := { a with groups := a.groups.filter (·.1 != id) }

def put (a : Assembler) (id : Nat) (g : Assembler.Group) : Assembler :=
  if (a.find? id).isSome then
    { a with groups := a.groups.map fun (i, h) => if i == id then (i, g) else (i, h) }
  else { a with groups := a.groups ++ [(id, g)] }

def add (a : Assembler) (tag : FragmentTag) (data : Bytes) (now : Nat) :
    Except Crash (Except Fault (Option Bytes) × Assembler) :=
  let g := (a.find? tag.group).getD { slots := List.replicate tag.total none, received := 0, started := now }
  let a := a.put tag.group g
  if g.slots.length ≠ tag.total then
    .ok (.error (.fragmentCount tag.group tag.total g.slots.length), a.remove tag.group)
  else if h : tag.index < g.slots.length then
    match g.slots[tag.index] with
    | some _ => .ok (.ok none, a)
    | none =>
      let g := { g with slots := g.slots.set tag.index (some data), received := g.received + 1 }
      if g.received < g.slots.length then .ok (.ok none, a.put tag.group g)
      else .ok (.ok (some (g.slots.filterMap id).flatten), a.remove tag.group)
  else .error (.indexOutOfBounds g.slots.length tag.index)

def expire (a : Assembler) (now : Nat) : List Nat × Assembler :=
  let old := a.groups.filter fun (_, g) => now - g.started > a.timeout
  let ids := (old.map (·.1)).mergeSort (· ≤ ·)
  (ids, { a with groups := a.groups.filter fun (_, g) => !(now - g.started > a.timeout) })

def incomplete (a : Assembler) : Nat := a.groups.length

end Assembler
end ReliableUdp
