import ReliableUdp.Crash
import ReliableUdp.Wire.Seq
import ReliableUdp.Wire.Kind
import ReliableUdp.Wire.Bytes

/-!
# Message headers

A header is the type byte (bit 7 for a fragment), the control byte of control messages, the
16-bit sequence number of kinds that carry one, a payload length of one or two bytes, and the
fragment tag of fragments: at most 12 bytes, describing at most `0x7fff` payload bytes.
-/

namespace ReliableUdp

/-- Where a fragment belongs: its group, the group's fragment count, and its index. -/
structure FragmentTag where
  group : Nat
  total : Nat
  index : Nat
  deriving DecidableEq, Repr

structure Header where
  kind : Kind
  control : Option Control := none
  seq : Option Seq := none
  payloadLen : Nat
  fragment : Option FragmentTag := none
  deriving DecidableEq, Repr

namespace FragmentTag

def encode (f : FragmentTag) : Bytes :=
  Wire.putU16 f.group ++ Wire.putU16 f.total ++ Wire.putU16 f.index

def decode : Reader FragmentTag := do
  let group ← Wire.readU16
  let total ← Wire.readU16
  let index ← Wire.readU16
  if index ≥ total then throw (.fragmentIndex index total)
  pure { group, total, index }

end FragmentTag

namespace Header

def maxPayload : Nat := 0x7fff

def maxLen : Nat := 12

def fragmentFlag : Nat := 0x80

def ofControl (c : Control) (len : Nat) : Except Crash Header :=
  if len ≤ maxPayload then .ok { kind := .control, control := some c, payloadLen := len }
  else .error (.payloadTooLong len)

def ofUser (k : Kind) (seq : Option Seq) (len : Nat) (fragment : Option FragmentTag) :
    Except Crash Header :=
  if len ≤ maxPayload then .ok { kind := k, seq, payloadLen := len, fragment }
  else .error (.payloadTooLong len)

def encodedLen (h : Header) : Nat :=
  1 + (if h.control.isSome then 1 else 0) + (if h.seq.isSome then 2 else 0) +
    (if h.payloadLen < 0x80 then 1 else 2) + (if h.fragment.isSome then 6 else 0)

def encodeLen (len : Nat) : Bytes :=
  if len < 0x80 then [len.toUInt8] else [(0x80 + len % 0x80).toUInt8, (len / 0x80 % 256).toUInt8]

def encode (h : Header) : Bytes :=
  [(h.kind.toRaw + if h.fragment.isSome then fragmentFlag else 0).toUInt8] ++
    (match h.control with | some c => [c.toNat.toUInt8] | none => []) ++
    (match h.seq with | some s => Wire.putU16 s.val | none => []) ++
    encodeLen h.payloadLen ++
    (match h.fragment with | some f => f.encode | none => [])

def readLen : Reader Nat := do
  let first ← Wire.readU8
  if first.toNat < 0x80 then pure first.toNat
  else
    let second ← Wire.readU8
    pure (first.toNat % 0x80 + second.toNat * 0x80)

def decode : Reader Header := do
  let t ← Wire.readU8
  let raw := t.toNat % fragmentFlag
  let kind ← match Kind.ofRaw? raw with
    | some k => pure k
    | none => throw (.unknownKind raw)
  let control ← if kind = .control then do
      let b ← Wire.readU8
      match Control.ofNat? b.toNat with
      | some c => pure (some c)
      | none => throw (.unknownControl b.toNat)
    else pure none
  let seq ← if kind.hasSeq then do pure (some (Seq.ofNat (← Wire.readU16))) else pure none
  let payloadLen ← readLen
  let fragment ← if t.toNat ≥ fragmentFlag then do pure (some (← FragmentTag.decode))
    else pure none
  pure { kind, control, seq, payloadLen, fragment }

def traceName (h : Header) : String :=
  let base := match h.control with
    | some c => c.name
    | none => h.kind.name
  let seq := match h.seq with
    | some s => s!"#{s.val}"
    | none => ""
  let frag := match h.fragment with
    | some f => s!"[{f.group},{f.total},{f.index}]"
    | none => ""
  base ++ seq ++ frag

end Header
end ReliableUdp
