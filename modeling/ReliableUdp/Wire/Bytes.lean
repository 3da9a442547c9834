import ReliableUdp.Wire.DecodeError

/-!
# Byte strings, fixed-width fields and varints

Fixed-width integers are little-endian and a length prefix is a base-128 varint of at most ten
bytes. A `Reader` takes the unread bytes to a value and what follows; the varints come from a
package (`Varint`), with `Varint.leb128` the format the library writes.
-/

namespace ReliableUdp

abbrev Bytes := List UInt8

abbrev Reader := StateT Bytes (Except DecodeError)

namespace Wire

def putU16 (v : Nat) : Bytes := [(v % 256).toUInt8, (v / 256 % 256).toUInt8]

def readU8 : Reader UInt8 := fun
  | [] => .error (.short 1 0)
  | b :: rest => .ok (b, rest)

def readU16 : Reader Nat := fun bs =>
  match bs with
  | a :: b :: rest => .ok (a.toNat + 256 * b.toNat, rest)
  | _ => .error (.short 2 bs.length)

def varintLen (n : Nat) : Nat :=
  if n < 128 then 1 else varintLen (n / 128) + 1
termination_by n
decreasing_by omega

def putVarint (n : Nat) : Bytes :=
  if n < 128 then [n.toUInt8] else (n % 128 + 128).toUInt8 :: putVarint (n / 128)
termination_by n
decreasing_by omega

def readVarintFrom (i acc : Nat) : Bytes → Except DecodeError (Nat × Bytes)
  | [] => .error .varintUnderflow
  | b :: rest =>
    if i = 9 ∧ b.toNat > 1 then .error .varintOverflow
    else
      let acc := acc + b.toNat % 128 * Nat.pow 2 (7 * i)
      if b.toNat < 128 then .ok (acc, rest) else readVarintFrom (i + 1) acc rest

def readVarint : Reader Nat := readVarintFrom 0 0

/-- A varint package: how a length prefix is written and read back. -/
structure Varint where
  put : Nat → Bytes
  read : Reader Nat

def Varint.leb128 : Varint := ⟨putVarint, readVarint⟩

def prefixedLen (len : Nat) : Nat := varintLen len + len

def putBytesWith (v : Varint) (d : Bytes) : Bytes := v.put d.length ++ d

def putBytes (d : Bytes) : Bytes := putBytesWith .leb128 d

def readExactly (n : Nat) : Reader Bytes := fun bs =>
  if n ≤ bs.length then .ok (bs.take n, bs.drop n) else .error (.lengthExceeds n bs.length)

def readBytesWith (v : Varint) : Reader Bytes := do
  let n ← v.read
  readExactly n

def readBytes : Reader Bytes := readBytesWith .leb128

theorem varintLen_eq (n : Nat) :
    varintLen n = if n < 128 then 1 else varintLen (n / 128) + 1 := by
  rw [varintLen]

theorem putVarint_eq (n : Nat) :
    putVarint n = if n < 128 then [n.toUInt8] else (n % 128 + 128).toUInt8 :: putVarint (n / 128) := by
  rw [putVarint]

theorem length_putVarint (n : Nat) : (putVarint n).length = varintLen n := by
  induction n using Nat.strongRecOn with
  | _ n ih =>
    rw [putVarint_eq, varintLen_eq]
    split
    · rfl
    · simp [ih (n / 128) (by omega)]

end Wire
end ReliableUdp
