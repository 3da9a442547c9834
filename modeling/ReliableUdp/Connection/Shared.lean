import ReliableUdp.Buffers.Event
import ReliableUdp.Buffers.Queued

/-!
# What the connections of one peer share

The settings, the pool with its payload ledger, the queue of released events and the traffic
counters. Connections work in `Step`: they read and change this shared state and may crash.
-/

namespace ReliableUdp

/-- Traffic counters: datagrams and bytes on the wire, and messages. A message is counted as
sent once, at its first send (a fragmented message once for all fragments), and as received
when it is handed to the application. -/
structure Stats where
  sentBytes : Nat := 0
  sentPackets : Nat := 0
  receivedBytes : Nat := 0
  receivedPackets : Nat := 0
  sentMessages : Nat := 0
  receivedMessages : Nat := 0
  resentMessages : Nat := 0
  droppedMessages : Nat := 0
  deriving Repr

structure Shared where
  settings : Settings
  pool : Pool
  released : Released
  stats : Stats := {}

def Shared.create (s : Settings) : Shared :=
  { settings := s, pool := { max := s.maxPoolSize }, released := { enabled := s.notifications } }

abbrev Step := StateT Shared (Except Crash)

namespace Step

def crash (x : Except Crash α) : Step α := StateT.lift x

def settings : Step Settings := do pure (← get).settings

def emit (f : Released → Released) : Step Unit :=
  modify fun sh => { sh with released := f sh.released }

def count (f : Stats → Stats) : Step Unit :=
  modify fun sh => { sh with stats := f sh.stats }

def withPool (f : Pool → α × Pool) : Step α := do
  let sh ← get
  let (a, pool) := f sh.pool
  set { sh with pool }
  pure a

def release (ms : List Queued) : Step Unit :=
  modify fun sh => { sh with pool := sh.pool.releaseAll (ms.map (·.payload)) }

def markSent (p : Payload) : Step Unit := do
  let first ← withPool (·.markSent p)
  if first then count fun s => { s with sentMessages := s.sentMessages + 1 }

theorem run_bind_ok {α β : Type} {x : Step α} {f : α → Step β} {sh sh' : Shared} {b : β}
    (h : (x >>= f).run sh = .ok (b, sh')) : ∃ a sh₁, x.run sh = .ok (a, sh₁) ∧ (f a).run sh₁ = .ok (b, sh') := by
  rw [StateT.run_bind] at h
  cases hx : x.run sh with
  | error e =>
    rw [hx] at h
    cases h
  | ok p =>
    rw [hx] at h
    exact ⟨p.1, p.2, rfl, h⟩

end Step
end ReliableUdp
