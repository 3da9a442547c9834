import Mathlib
import ReliableUdp.Wire.Datagram
import ReliableUdp.Wire.Payload

/-!
# What is written reads back

Varints, length-prefixed bytes and texts, Connect payloads and well-formed headers read back as
written, leaving what follows. So the messages a writer was given are determined by what it
holds before and after (`Writer.Writes.unique`).
-/

namespace ReliableUdp

/-! ## Varints, byte strings and texts -/

theorem Utf8.decode_encode (s : String) : Utf8.decode (Utf8.encode s) = .ok s := by
  have h : String.fromUTF8? s.toUTF8 = some s := by
    unfold String.fromUTF8?
    rw [String.toUTF8_eq_toByteArray, dif_pos s.isValidUTF8]
    rfl
  simp only [Utf8.decode, Utf8.encode, Array.toArray_toList, h]

namespace Wire

theorem readVarintFrom_putVarint (n i acc : Nat) (rest : Bytes) (hi : i ≤ 9)
    (hn : n < 2 ^ (64 - 7 * i)) :
    readVarintFrom i acc (putVarint n ++ rest) = .ok (acc + n * 2 ^ (7 * i), rest) := by
  induction n using Nat.strongRecOn generalizing i acc with
  | _ n ih =>
    rw [putVarint_eq]
    split
    · rename_i hsmall
      have hb : (n.toUInt8).toNat = n := by simp; omega
      have hov : ¬ (i = 9 ∧ n > 1) := by
        rintro ⟨rfl, h⟩
        omega
      simp only [List.singleton_append, readVarintFrom, hb, if_neg hov, if_pos hsmall,
        Nat.mod_eq_of_lt hsmall, Nat.pow_eq]
    · have hb : ((n % 128 + 128).toUInt8).toNat = n % 128 + 128 := by simp; omega
      have hi' : i < 9 := by
        rcases Nat.lt_or_eq_of_le hi with h | rfl
        · exact h
        · simp at hn; omega
      have hov : ¬ (i = 9 ∧ n % 128 + 128 > 1) := by omega
      -- one group further on, the bound loses seven bits
      have hpow : 2 ^ (64 - 7 * i) = 2 ^ (64 - 7 * (i + 1)) * 128 := by
        rw [show 64 - 7 * i = 64 - 7 * (i + 1) + 7 by omega, Nat.pow_add]
      have hnext : n / 128 < 2 ^ (64 - 7 * (i + 1)) := by
        rw [Nat.div_lt_iff_lt_mul (by decide), ← hpow]
        exact hn
      simp only [List.cons_append, readVarintFrom, hb, if_neg hov, Nat.pow_eq]
      rw [if_neg (by omega), ih (n / 128) (by omega) (i + 1) _ (by omega) hnext]
      congr 2
      rw [show 7 * (i + 1) = 7 * i + 7 by omega, Nat.pow_add, Nat.add_assoc]
      have hm : (n % 128 + 128) % 128 = n % 128 := by omega
      have hq : n / 128 * (2 ^ (7 * i) * 2 ^ 7) = 128 * (n / 128) * 2 ^ (7 * i) := by
        rw [show (2 : Nat) ^ 7 = 128 from rfl, Nat.mul_comm (2 ^ (7 * i)), ← Nat.mul_assoc,
          Nat.mul_comm (n / 128)]
      rw [hm, hq, ← Nat.add_mul, Nat.mod_add_div]

theorem readVarint_putVarint {n : Nat} (hn : n < 2 ^ 64) (rest : Bytes) :
    readVarint (putVarint n ++ rest) = .ok (n, rest) := by
  simpa [readVarint] using readVarintFrom_putVarint n 0 0 rest (by decide) hn

theorem readExactly_append {d : Bytes} (rest : Bytes) :
    readExactly d.length (d ++ rest) = .ok (d, rest) := by
  simp [readExactly]

/-- What the library relies on of its varint package: a length is written as its unsigned
LEB128 bytes, and a length below `2 ^ 64` is read back from them, the bytes after it left alone. -/
structure Varint.IsLeb128 (v : Varint) : Prop where
  put_eq : ∀ n, v.put n = putVarint n
  read_put : ∀ n rest, n < 2 ^ 64 → v.read (putVarint n ++ rest) = .ok (n, rest)

theorem Varint.isLeb128_leb128 : Varint.leb128.IsLeb128 :=
  ⟨fun _ => rfl, fun _ rest hn => readVarint_putVarint hn rest⟩

section Leb128

variable {v : Varint} (hv : v.IsLeb128)
include hv

theorem readBytesWith_putBytesWith {d : Bytes} (hd : d.length < 2 ^ 64) (rest : Bytes) :
    readBytesWith v (putBytesWith v d ++ rest) = .ok (d, rest) := by
  simp only [readBytesWith, putBytesWith, hv.put_eq, List.append_assoc, bind, StateT.bind,
    hv.read_put _ _ hd, Except.bind, readExactly_append]

theorem readTextWith_putTextWith {s : String} (hs : (Utf8.encode s).length < 2 ^ 64)
    (rest : Bytes) : readTextWith v (putTextWith v s ++ rest) = .ok (s, rest) := by
  simp only [readTextWith, putTextWith, bind, StateT.bind, readBytesWith_putBytesWith hv hs,
    Except.bind, Utf8.decode_encode]
  rfl

end Leb128

theorem readBytes_putBytes {d : Bytes} (hd : d.length < 2 ^ 64) (rest : Bytes) :
    readBytes (putBytes d ++ rest) = .ok (d, rest) :=
  readBytesWith_putBytesWith Varint.isLeb128_leb128 hd rest

theorem readText_putText {s : String} (hs : (Utf8.encode s).length < 2 ^ 64) (rest : Bytes) :
    readText (putText s ++ rest) = .ok (s, rest) :=
  readTextWith_putTextWith Varint.isLeb128_leb128 hs rest

end Wire

theorem Payload.readConnectWith_connectWith {v : Wire.Varint} (hv : v.IsLeb128) {app : String}
    {hail : Bytes} (ha : (Utf8.encode app).length < 2 ^ 64) (hh : hail.length < 2 ^ 64)
    (rest : Bytes) :
    readConnectWith v (connectWith v app hail ++ rest) = .ok ((app, hail), rest) := by
  simp only [readConnectWith, connectWith, List.append_assoc, bind, StateT.bind,
    Wire.readTextWith_putTextWith hv ha, Except.bind, Wire.readBytesWith_putBytesWith hv hh]
  rfl

theorem Payload.readConnect_connect {app : String} {hail : Bytes}
    (ha : (Utf8.encode app).length < 2 ^ 64) (hh : hail.length < 2 ^ 64) (rest : Bytes) :
    readConnect (connect app hail ++ rest) = .ok ((app, hail), rest) :=
  readConnectWith_connectWith Wire.Varint.isLeb128_leb128 ha hh rest

/-! ## Headers -/

theorem Wire.readU16_putU16 {v : Nat} (hv : v < 65536) (rest : Bytes) :
    readU16 (putU16 v ++ rest) = .ok (v, rest) := by
  simp [putU16, readU16]
  omega

theorem Header.readLen_encodeLen {len : Nat} (hl : len ≤ maxPayload) (rest : Bytes) :
    readLen (encodeLen len ++ rest) = .ok (len, rest) := by
  unfold maxPayload at hl
  unfold encodeLen
  split
  · rename_i h
    have hb : len % 256 = len := Nat.mod_eq_of_lt (by omega)
    simp [readLen, bind, StateT.bind, Wire.readU8, pure, Except.bind, hb, h]
    rfl
  · have hb : (128 + len % 128) % 256 = 128 + len % 128 := Nat.mod_eq_of_lt (by omega)
    have hlow : len / 128 % 256 = len / 128 := Nat.mod_eq_of_lt (by omega)
    have hge : ¬ 128 + len % 128 < 128 := by omega
    simp [readLen, bind, StateT.bind, Wire.readU8, pure, Except.bind, StateT.pure, hb, hlow, hge]
    rw [Nat.mod_add_div']
    rfl

def FragmentTag.WellFormed (f : FragmentTag) : Prop :=
  f.index < f.total ∧ f.total < 65536 ∧ f.group < 65536

theorem FragmentTag.decode_encode {f : FragmentTag} (hf : f.WellFormed) (rest : Bytes) :
    decode (f.encode ++ rest) = .ok (f, rest) := by
  obtain ⟨hi, ht, hg⟩ := hf
  simp only [decode, encode, List.append_assoc, bind, StateT.bind, Except.bind,
    Wire.readU16_putU16 hg, Wire.readU16_putU16 ht,
    Wire.readU16_putU16 (show f.index < 65536 by omega)]
  simp [Nat.not_le.2 hi, pure, StateT.pure, Except.pure]

theorem Kind.toRaw_lt {k : Kind} (h : k.Valid) : k.toRaw < 100 := by
  cases k with
  | control => decide
  | unconnected => decide
  | user m c =>
    simp only [Kind.Valid] at h
    cases m <;> simp only [Kind.toRaw, Delivery.base] <;> simp only [Delivery.channels] at h <;> omega

theorem Control.toNat_lt (k : Control) : k.toNat < 10 := by
  cases k <;> decide

/-- A header the decoder reads back: a kind in range, a control byte exactly for control
messages, a sequence number exactly for the kinds that carry one, a length its field holds,
and a well-formed fragment tag. -/
structure Header.WellFormed (h : Header) : Prop where
  kind : h.kind.Valid
  control : h.control.isSome ↔ h.kind = .control
  seq : h.seq.isSome ↔ h.kind.hasSeq = true
  len : h.payloadLen ≤ Header.maxPayload
  fragment : ∀ f ∈ h.fragment, f.WellFormed

theorem Header.decode_encode {h : Header} (hw : h.WellFormed) (rest : Bytes) :
    decode (h.encode ++ rest) = .ok (h, rest) := by
  obtain ⟨kind, control, seq, payloadLen, fragment⟩ := h
  obtain ⟨hk, hc, hs, hl, hf⟩ := hw
  -- the type byte is the kind's number, below the fragment flag
  have hraw : kind.toRaw < 100 := Kind.toRaw_lt hk
  have h1 : kind.toRaw % 256 = kind.toRaw := by omega
  have h2 : (kind.toRaw + 128) % 256 = kind.toRaw + 128 := by omega
  have h3 : (kind.toRaw + 128) % 128 = kind.toRaw := by omega
  have h4 : kind.toRaw % 128 = kind.toRaw := by omega
  have h5 : ¬ 128 ≤ kind.toRaw := by omega
  have hseq : ∀ s : Seq, s.val < 65536 := fun s => Nat.lt_trans s.lt (by decide)
  have hctl : ∀ c : Control, c.toNat % 256 = c.toNat :=
    fun c => Nat.mod_eq_of_lt (Nat.lt_trans c.toNat_lt (by decide))
  have hdec : ∀ f r, fragment = some f → FragmentTag.decode (f.encode ++ r) = .ok (f, r) :=
    fun f r e => FragmentTag.decode_encode (hf f e) r
  have hkind := Kind.ofRaw?_toRaw _ hk
  -- one case per optional field; well-formedness rules out the others
  rcases control with _ | c <;> rcases seq with _ | s <;> rcases fragment with _ | f <;>
    simp only [Option.isSome_none, Option.isSome_some, Bool.false_eq_true, false_iff,
      true_iff] at hc hs <;>
    (try subst hc) <;>
    simp [decode, encode, fragmentFlag, bind, StateT.bind, Except.bind, Wire.readU8, h1, h2, h3,
      h4, h5, hkind, hs, readLen_encodeLen hl, pure, StateT.pure, Except.pure,
      Wire.readU16_putU16 (hseq _), Seq.ofNat_val, hdec, Control.ofNat?_toNat, hctl] <;>
    simp [hc, bind, StateT.bind, Except.bind, pure, StateT.pure, Except.pure, readLen_encodeLen hl,
      Wire.readU16_putU16 (hseq _), Seq.ofNat_val, hdec]

theorem Header.encode_ne_nil (h : Header) : h.encode ≠ [] := by
  simp [encode]

def MessageWellFormed (m : Header × Bytes) : Prop := m.1.WellFormed ∧ m.1.payloadLen = m.2.length

/-! ## What a writer was given -/

namespace Datagram
namespace Writer

def content (w : Writer) : Bytes := (w.finished ++ w.current.toList).flatten

theorem content_write {w w' : Writer} {h : Header} {p : Bytes} (hw : w.write h p = .ok w') :
    w'.content = w.content ++ (h.encode ++ p) := by
  unfold write at hw
  simp only at hw
  split at hw
  · cases hw
  · cases hc : w.current with
    | none =>
      rw [hc] at hw
      cases hw
      simp [content, hc]
    | some cur =>
      rw [hc] at hw
      simp only at hw
      split at hw <;> cases hw <;> simp [content, hc]

inductive Writes : Writer → List (Header × Bytes) → Writer → Prop
  | nil (w : Writer) : Writes w [] w
  | cons {w w₁ w₂ : Writer} {m : Header × Bytes} {ms : List (Header × Bytes)} :
      w.write m.1 m.2 = .ok w₁ → Writes w₁ ms w₂ → Writes w (m :: ms) w₂

def encoding (ms : List (Header × Bytes)) : Bytes := ms.flatMap fun m => m.1.encode ++ m.2

@[simp] theorem encoding_append (ms ms' : List (Header × Bytes)) :
    encoding (ms ++ ms') = encoding ms ++ encoding ms' := by
  simp [encoding]

theorem Writes.single {w w' : Writer} {m : Header × Bytes} (h : w.write m.1 m.2 = .ok w') :
    Writes w [m] w' :=
  .cons h (.nil w')

theorem Writes.append {w w₁ w₂ : Writer} {ms ms' : List (Header × Bytes)} (h₁ : Writes w ms w₁)
    (h₂ : Writes w₁ ms' w₂) : Writes w (ms ++ ms') w₂ := by
  induction h₁ with
  | nil => exact h₂
  | cons hw _ ih => exact .cons hw (ih h₂)

theorem Writes.content {w w' : Writer} {ms : List (Header × Bytes)} (h : Writes w ms w') :
    w'.content = w.content ++ encoding ms := by
  induction h with
  | nil => simp [encoding]
  | cons hw _ ih => simp [ih, content_write hw, encoding]

theorem encoding_inj {ms ms' : List (Header × Bytes)} (hw : ∀ m ∈ ms, MessageWellFormed m)
    (hw' : ∀ m ∈ ms', MessageWellFormed m) (h : encoding ms = encoding ms') : ms = ms' := by
  induction ms generalizing ms' with
  | nil =>
    cases ms' with
    | nil => rfl
    | cons m' _ => simp [encoding, Header.encode_ne_nil] at h
  | cons m ms ih =>
    cases ms' with
    | nil => simp [encoding, Header.encode_ne_nil] at h
    | cons m' ms' =>
      obtain ⟨⟨hd, hp⟩, hm⟩ := List.forall_mem_cons.1 hw
      obtain ⟨⟨hd', hp'⟩, hm'⟩ := List.forall_mem_cons.1 hw'
      simp only [encoding, List.flatMap_cons, List.append_assoc] at h
      -- the first header reads back from both sides
      have hdec := Header.decode_encode hd (m.2 ++ encoding ms)
      rw [show m.1.encode ++ (m.2 ++ encoding ms) = m'.1.encode ++ (m'.2 ++ encoding ms') from h,
        Header.decode_encode hd'] at hdec
      simp only [Except.ok.injEq, Prod.mk.injEq] at hdec
      obtain ⟨hhead, hrest⟩ := hdec
      -- and announces the length of its payload
      have hlen : m'.2.length = m.2.length := by rw [← hp, ← hp', hhead]
      obtain ⟨hpay, htail⟩ := List.append_inj hrest hlen
      rw [Prod.ext hhead.symm hpay.symm, ih hm hm' htail.symm]

/-- The well-formed messages a writer was given are determined by what it held before and
after. -/
theorem Writes.unique {w w' : Writer} {ms ms' : List (Header × Bytes)} (h : Writes w ms w')
    (h' : Writes w ms' w') (hw : ∀ m ∈ ms, MessageWellFormed m)
    (hw' : ∀ m ∈ ms', MessageWellFormed m) : ms = ms' := by
  have hc := h.content
  rw [h'.content] at hc
  exact encoding_inj hw hw' (List.append_cancel_left hc).symm

theorem Writes.eq_nil {w : Writer} {ms : List (Header × Bytes)} (h : Writes w ms w) : ms = [] := by
  have hc := h.content
  have hnil : encoding ms = [] := by simpa using hc
  cases ms with
  | nil => rfl
  | cons m _ => simp [encoding, Header.encode_ne_nil] at hnil

end Writer
end Datagram

end ReliableUdp
