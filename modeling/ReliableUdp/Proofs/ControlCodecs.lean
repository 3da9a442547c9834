import ReliableUdp.Proofs.ReadBack
import ReliableUdp.Proofs.Safety.Bounds

/-!
# Control payloads read back

Each control payload codec reads back what it writes, leaves the bytes after it unread, and
writes as many bytes as its length function says (`Payload.codecs_read_back`).
-/

namespace ReliableUdp

namespace Payload

theorem readAckEntries_ack {es : List (Seq × Nat)} (hk : ∀ e ∈ es, e.2 < 256) (rest : Bytes) :
    readAckEntries es.length (ack es ++ rest) = .ok (es, rest) := by
  induction es with
  | nil => rfl
  | cons e es ih =>
    obtain ⟨s, k⟩ := e
    have hs : s.val < 65536 := Nat.lt_trans s.lt (by decide)
    have hx : (k.toUInt8).toNat = k := by
      have := hk (s, k) List.mem_cons_self
      simp
      omega
    have hxs := ih fun e he => hk e (List.mem_cons_of_mem _ he)
    simp only [ack, List.flatMap_cons, List.length_cons, List.append_assoc] at hxs ⊢
    -- the sequence number takes two bytes and the kind one; the other entries follow
    simp only [readAckEntries, bind, StateT.bind, Except.bind, Wire.readU16_putU16 hs]
    simp [Wire.readU8, hxs, hx, Seq.ofNat_val, pure, StateT.pure, Except.pure]

theorem readAck_ack {es : List (Seq × Nat)} (hk : ∀ e ∈ es, e.2 < 256) :
    readAck (ack es) = .ok (es, []) := by
  have hlen := length_ack es
  -- the length is a whole number of entries, so the reader takes them all
  have hdiv : (ack es).length / ackEntryLen = es.length := by
    rw [hlen]
    unfold ackEntryLen
    omega
  have hmod : (ack es).length % ackEntryLen = 0 := by
    rw [hlen]
    unfold ackEntryLen
    omega
  have h := readAckEntries_ack hk []
  rw [List.append_nil] at h
  simp [readAck, bind, StateT.bind, Except.bind, get, getThe, MonadStateOf.get, StateT.get, pure,
    Except.pure, hmod, hdiv, h]

theorem readPing_ping {id : Nat} (hid : id < 256) (rest : Bytes) :
    readPing (ping id ++ rest) = .ok (id, rest) := by
  have hb : id.toUInt8.toNat = id := by
    simp
    omega
  simp [readPing, ping, bind, StateT.bind, Except.bind, Wire.readU8, pure, StateT.pure, Except.pure, hb]

/-- The control payload codecs read back what they write, leave what follows unread, and take
the bytes their lengths give: byte strings (the hail of ConnectResponse) and texts (the reason
of Disconnect, the application identifier of Discovery) behind their length prefixes, Connect,
Ping, and Acknowledge, whose entries take three bytes each. -/
theorem codecs_read_back {v : Wire.Varint} (hv : v.IsLeb128) :
    (∀ d : Bytes, (Wire.putBytesWith v d).length = Wire.prefixedLen d.length) ∧
    (∀ d rest : Bytes, d.length < 2 ^ 64 →
      Wire.readBytesWith v (Wire.putBytesWith v d ++ rest) = .ok (d, rest)) ∧
    (∀ s : String, (Wire.putTextWith v s).length = Wire.prefixedLen (Utf8.encode s).length) ∧
    (∀ (s : String) (rest : Bytes), (Utf8.encode s).length < 2 ^ 64 →
      Wire.readTextWith v (Wire.putTextWith v s ++ rest) = .ok (s, rest)) ∧
    (∀ (app : String) (hail rest : Bytes), (Utf8.encode app).length < 2 ^ 64 → hail.length < 2 ^ 64 →
      readConnectWith v (connectWith v app hail ++ rest) = .ok ((app, hail), rest) ∧
        (connectWith v app hail).length = connectLen app hail) ∧
    (∀ (id : Nat) (rest : Bytes), id < 256 → readPing (ping id ++ rest) = .ok (id, rest) ∧ (ping id).length = 1) ∧
    (∀ es : List (Seq × Nat), (∀ e ∈ es, e.2 < 256) →
      readAck (ack es) = .ok (es, []) ∧ (ack es).length = 3 * es.length) :=
  ⟨Wire.length_putBytesWith hv,
    fun _ rest hd => Wire.readBytesWith_putBytesWith hv hd rest,
    Wire.length_putTextWith hv,
    fun _ rest hs => Wire.readTextWith_putTextWith hv hs rest,
    fun _ _ rest ha hh => ⟨readConnectWith_connectWith hv ha hh rest, length_connectWith hv _ _⟩,
    fun _ rest hid => ⟨readPing_ping hid rest, rfl⟩,
    fun _ hk => ⟨readAck_ack hk, length_ack _⟩⟩

theorem codecs_read_back_samples :
    Wire.Varint.leb128.IsLeb128 ∧
    Wire.readBytes (Wire.putBytes [7, 8] ++ [1]) = .ok ([7, 8], [1]) ∧
    Wire.readText (Wire.putText "bye" ++ []) = .ok ("bye", []) ∧
    readConnect (connect "app" [42] ++ [0]) = .ok (("app", [42]), [0]) ∧
    readPing (ping 200 ++ [5]) = .ok (200, [5]) ∧
    readAck (ack [(Seq.ofNat 1023, 99), (Seq.ofNat 4, 3)]) = .ok ([(Seq.ofNat 1023, 99), (Seq.ofNat 4, 3)], []) :=
  have h := codecs_read_back Wire.Varint.isLeb128_leb128
  ⟨Wire.Varint.isLeb128_leb128, h.2.1 _ _ (by decide), h.2.2.2.1 _ _ (by decide),
    (h.2.2.2.2.1 _ _ _ (by decide) (by decide)).1, (h.2.2.2.2.2.1 _ _ (by decide)).1,
    (h.2.2.2.2.2.2 _ (by decide)).1⟩

end Payload
end ReliableUdp
