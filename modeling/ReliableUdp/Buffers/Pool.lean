import ReliableUdp.Buffers.Event

/-!
# The buffer pool

Up to `max` spare buffers and spare message wrappers each, the newest large enough taken
first, and the ledger of outgoing payloads: their queue references and sent marks. A payload
comes back to the pool exactly when its last reference is dropped.
-/

namespace ReliableUdp

structure Storage where
  data : Bytes := []
  cap : Nat
  deriving DecidableEq, Repr

def Storage.clear (b : Storage) : Storage := { b with data := [] }

@[simp] theorem Storage.clear_data (b : Storage) : b.clear.data = [] := rfl

@[simp] theorem Storage.clear_cap (b : Storage) : b.clear.cap = b.cap := rfl

structure Incoming where
  kind : EventKind := .unconnected
  handle : Option Nat := none
  sender : Option Endpoint := none
  storage : Storage
  deriving Repr

def Incoming.reset (m : Incoming) : Incoming := { storage := m.storage.clear }

@[simp] theorem Incoming.reset_storage (m : Incoming) : m.reset.storage = m.storage.clear := rfl

/-- A shared outgoing payload, known to the ledger by its number, with the capacity of the
buffer that holds it. -/
structure Payload where
  id : Nat
  data : Bytes
  cap : Nat := 0
  deriving Repr, Inhabited

def Payload.buffer (p : Payload) : Storage := { data := p.data, cap := p.cap }

structure Share where
  refs : Nat
  sent : Bool := false
  deriving Repr

structure Pool where
  max : Nat
  storage : List Storage := []
  outWrappers : List Storage := []
  inWrappers : List Incoming := []
  recycledOut : Nat := 0
  shares : List (Nat × Share) := []
  nextId : Nat := 0
  deriving Repr

namespace Pool

def takeLast (p : α → Bool) : List α → Option (α × List α)
  | [] => none
  | x :: xs =>
    match takeLast p xs with
    | some (y, rest) => some (y, x :: rest)
    | none => if p x then some (x, xs) else none

def getStorage (pool : Pool) (min : Nat) : Storage × Pool :=
  match takeLast (·.cap ≥ min) pool.storage with
  | some (b, rest) => (b, { pool with storage := rest })
  | none => ({ cap := min }, pool)

def recycleStorage (pool : Pool) (b : Storage) : Pool :=
  if b.cap = 0 then pool
  else if pool.storage.length < pool.max then { pool with storage := pool.storage ++ [b.clear] }
  else pool

def refit (pool : Pool) (b : Storage) (min : Nat) : Storage × Pool :=
  if b.cap < min then
    let (fresh, pool) := pool.getStorage min
    (fresh, pool.recycleStorage b)
  else (b, pool)

def createOutgoing (pool : Pool) (min : Nat) : Storage × Pool :=
  match pool.outWrappers.getLast? with
  | some m => refit { pool with outWrappers := pool.outWrappers.dropLast } m min
  | none => pool.getStorage min

def createIncoming (pool : Pool) (min : Nat) : Incoming × Pool :=
  match pool.inWrappers.getLast? with
  | some m =>
    let (b, pool) := refit { pool with inWrappers := pool.inWrappers.dropLast } m.storage min
    ({ m with storage := b }, pool)
  | none =>
    let (b, pool) := pool.getStorage min
    ({ storage := b }, pool)

def recycleOutgoing (pool : Pool) (m : Storage) : Pool :=
  let pool := { pool with recycledOut := pool.recycledOut + 1 }
  if pool.outWrappers.length < pool.max then { pool with outWrappers := pool.outWrappers ++ [m.clear] }
  else pool.recycleStorage m.clear

def recycleIncoming (pool : Pool) (m : Incoming) : Pool :=
  if pool.inWrappers.length < pool.max then { pool with inWrappers := pool.inWrappers ++ [m.reset] }
  else pool.recycleStorage m.reset.storage

/-! ### The payload ledger -/

def share? (pool : Pool) (id : Nat) : Option Share := (pool.shares.find? (·.1 == id)).map (·.2)

def setShare (pool : Pool) (id : Nat) (s : Share) : Pool :=
  { pool with shares := pool.shares.map fun (i, t) => if i == id then (i, s) else (i, t) }

def enqueue (pool : Pool) (data : Bytes) (cap : Nat := data.length) : Payload × Pool :=
  ({ id := pool.nextId, data, cap },
    { pool with nextId := pool.nextId + 1, shares := pool.shares ++ [(pool.nextId, { refs := 1 })] })

def retain (pool : Pool) (p : Payload) : Pool :=
  match pool.share? p.id with
  | some s => pool.setShare p.id { s with refs := s.refs + 1 }
  | none => pool

/-- Drops one reference; the last one returns the payload to the pool. -/
def release (pool : Pool) (p : Payload) : Pool :=
  match pool.share? p.id with
  | some s =>
    if s.refs ≤ 1 then
      { pool with shares := pool.shares.filter (·.1 != p.id) }.recycleOutgoing p.buffer
    else pool.setShare p.id { s with refs := s.refs - 1 }
  | none => pool

def releaseAll (pool : Pool) (ps : List Payload) : Pool := ps.foldl release pool

def markSent (pool : Pool) (p : Payload) : Bool × Pool :=
  match pool.share? p.id with
  | some s => (!s.sent, pool.setShare p.id { s with sent := true })
  | none => (false, pool)

def refs (pool : Pool) (p : Payload) : Nat := (pool.share? p.id).map (·.refs) |>.getD 0

def isSent (pool : Pool) (p : Payload) : Bool := (pool.share? p.id).map (·.sent) |>.getD false

end Pool
end ReliableUdp
