import Mathlib.Data.String.Basic
import ReliableUdp.Connection.Heartbeat
import ReliableUdp.Proofs.Outbound
import ReliableUdp.Proofs.Reassembly

/-!
# Bounds a connection relies on

A crash is of time (`Crash.isTime`) or of a broken promise: a message too long, too many
fragments, an index past its table. These are the bounds that rule out the second kind, from
the settings guard (`Settings.Sized`) and from what the wire gives.
-/

namespace ReliableUdp

/-- Crashes that come from time: a duration or an instant past the range of its type, or
seconds that make no duration. -/
def Crash.isTime : Crash → Bool
  | .spanAddOverflow | .spanMulOverflow | .instantOverflow | .secondsNegative
  | .secondsOutOfRange => true
  | _ => false

def Crash.OnlyTime {α : Type} (x : Except Crash α) : Prop := ∀ e, x = .error e → e.isTime

namespace Crash.OnlyTime

variable {α β : Type}

theorem ok (a : α) : OnlyTime (.ok a : Except Crash α) := fun _ h => by cases h

theorem bind {x : Except Crash α} {f : α → Except Crash β} (hx : OnlyTime x)
    (hf : ∀ a, x = .ok a → OnlyTime (f a)) : OnlyTime (x >>= f) := by
  intro e he
  cases h : x with
  | error e' =>
    rw [h] at he
    cases he
    exact hx _ h
  | ok a =>
    rw [h] at he
    exact hf a h e he

theorem ite {c : Prop} [Decidable c] {a : α} {e : Crash} (he : e.isTime = true) :
    OnlyTime (if c then .ok a else .error e) := by
  intro e' h
  split at h
  · cases h
  · cases h
    exact he

theorem foldlM {f : β → α → Except Crash β} (hf : ∀ b a, OnlyTime (f b a)) :
    ∀ (l : List α) (b : β), OnlyTime (l.foldlM f b)
  | [], b => ok b
  | a :: l, b => by
    rw [List.foldlM_cons]
    exact bind (hf b a) fun b' _ => foldlM hf l b'

end Crash.OnlyTime

open Crash (OnlyTime)

/-! ## Settings -/

/-- What the settings guard establishes about sizes: an MTU from 100 bytes up to the longest
payload a header describes, at most 65535 fragments to the largest message, and resend tables
with an entry each. -/
structure Settings.Sized (s : Settings) : Prop where
  mtu_ge : 100 ≤ s.mtu
  mtu_le : s.mtu ≤ Header.maxPayload
  fragments : (s.maxMessageSize + s.maxPayload - 1) / s.maxPayload ≤ 65535
  delays : s.resend.baseDelays ≠ []
  factors : s.resend.rttMultipliers ≠ []

namespace Settings

theorem check_bind_ok {α : Type} {c : Bool} {e : SettingsError} {f : Unit → Except Fault α} {a : α}
    (h : (check c e >>= f) = .ok a) : c = true ∧ f () = .ok a := by
  unfold check at h
  cases c with
  | false => cases h
  | true => exact ⟨rfl, h⟩

theorem lift_bind_ok {α β : Type} {x : Except Crash α} {f : α → Except Fault β} {b : β}
    (h : (Fault.lift x >>= f) = .ok b) : ∃ a, f a = .ok b := by
  cases hx : Fault.lift x with
  | error e => rw [hx] at h; cases h
  | ok a => rw [hx] at h; exact ⟨a, h⟩

theorem sized_of_validate {s : Settings} (h : s.validate = .ok ()) : s.Sized := by
  unfold validate at h
  obtain ⟨h₁, h⟩ := check_bind_ok h
  obtain ⟨h₂, h⟩ := check_bind_ok h
  obtain ⟨-, h⟩ := check_bind_ok h
  obtain ⟨h₄, h⟩ := check_bind_ok h
  obtain ⟨-, h⟩ := check_bind_ok h
  obtain ⟨-, h⟩ := check_bind_ok h
  obtain ⟨-, h⟩ := check_bind_ok h
  obtain ⟨-, h⟩ := check_bind_ok h
  obtain ⟨-, h⟩ := check_bind_ok h
  obtain ⟨_, h⟩ := lift_bind_ok h
  obtain ⟨-, h⟩ := check_bind_ok h
  obtain ⟨h₁₂, -⟩ := check_bind_ok h
  simp only [Bool.and_eq_true, Bool.not_eq_true', List.isEmpty_eq_false_iff, decide_eq_true_eq]
    at h₁ h₂ h₄ h₁₂
  exact ⟨h₁, h₂, h₁₂, h₄.1, h₄.2⟩

variable {s : Settings}

theorem Sized.maxLen_le (hs : s.Sized) : Header.maxLen ≤ s.mtu := by
  have := hs.mtu_ge
  unfold Header.maxLen
  omega

theorem Sized.maxPayload_ge (hs : s.Sized) : 88 ≤ s.maxPayload := by
  have := hs.mtu_ge
  unfold maxPayload Header.maxLen
  omega

theorem Sized.ackChunk_pos (hs : s.Sized) : 0 < (s.mtu - Header.maxLen) / Payload.ackEntryLen := by
  have := hs.mtu_ge
  unfold Header.maxLen Payload.ackEntryLen
  omega

theorem Sized.count_le (hs : s.Sized) {len : Nat} (hl : len ≤ s.maxMessageSize) :
    len ≤ 65535 * s.maxPayload := by
  have hc : 0 < s.maxPayload := Nat.lt_of_lt_of_le (by decide) hs.maxPayload_ge
  have hdiv := Nat.div_add_mod (s.maxMessageSize + s.maxPayload - 1) s.maxPayload
  have hmod := Nat.mod_lt (s.maxMessageSize + s.maxPayload - 1) hc
  have hmul := Nat.mul_le_mul_left s.maxPayload hs.fragments
  omega

end Settings

/-! ## Reading -/

def Reader.Gives {α : Type} (x : Reader α) (P : α → Prop) : Prop :=
  ∀ bs a rest, x bs = .ok (a, rest) → P a

namespace Reader.Gives

variable {α β : Type} {x : Reader α} {P Q : α → Prop}

theorem pure {a : α} (h : P a) : Gives (Pure.pure a : Reader α) P := by
  intro bs b rest hr
  cases hr
  exact h

theorem bind {f : α → Reader β} {R : β → Prop} (hx : Gives x Q) (hf : ∀ a, Q a → Gives (f a) R) :
    Gives (x >>= f) R := by
  intro bs b rest hr
  change (x bs >>= fun p => f p.1 p.2) = .ok (b, rest) at hr
  cases hx' : x bs with
  | error e =>
    rw [hx'] at hr
    cases hr
  | ok p =>
    rw [hx'] at hr
    exact hf p.1 (hx bs p.1 p.2 hx') p.2 b rest hr

theorem any : Gives x fun _ => True := fun _ _ _ _ => trivial

theorem throw_bind {e : DecodeError} {f : α → Reader β} {R : β → Prop} :
    Gives (MonadExcept.throw e >>= f : Reader β) R :=
  bind (Q := fun _ => False) (fun _ _ _ hr => by cases hr) fun _ h => h.elim

theorem pure_bind {a : α} {f : α → Reader β} {R : β → Prop} (h : Gives (f a) R) :
    Gives (Pure.pure a >>= f : Reader β) R := h

end Reader.Gives

theorem Kind.valid_of_ofRaw? {raw : Nat} {k : Kind} (h : Kind.ofRaw? raw = some k) : k.Valid := by
  unfold Kind.ofRaw? at h
  repeat' split at h
  all_goals cases h
  all_goals simp only [Kind.Valid, Delivery.channels, Kind.count] at * <;> omega

theorem FragmentTag.decode_gives : Reader.Gives FragmentTag.decode fun f => f.index < f.total := by
  unfold FragmentTag.decode
  refine .bind .any fun g _ => .bind .any fun t _ => .bind .any fun i _ => ?_
  dsimp only
  split
  · exact .throw_bind
  · exact .pure (by dsimp only; omega)

/-- What a header read off the wire satisfies: a kind on a channel of its method, and a
fragment index below the fragment count. -/
def Header.Received (h : Header) : Prop := h.kind.Valid ∧ ∀ t ∈ h.fragment, t.index < t.total

theorem Header.decode_gives : Reader.Gives Header.decode Header.Received := by
  unfold Header.decode
  refine .bind .any fun b _ => ?_
  dsimp only
  split
  · rename_i k hk
    have hkind := Kind.valid_of_ofRaw? hk
    -- what follows reads fields the property does not depend on, but for the fragment tag
    repeat' first
      | split
      | exact .throw_bind
      | refine .pure_bind ?_
      | refine .bind (x := Wire.readU8) .any fun _ _ => ?_
      | refine .bind (x := Wire.readU16) .any fun _ _ => ?_
      | refine .bind (x := Header.readLen) .any fun _ _ => ?_
      | refine .bind FragmentTag.decode_gives fun t ht => ?_
      | exact .pure ⟨hkind, fun _ hm => by cases hm <;> assumption⟩
  · exact .throw_bind

/-! ## Lengths of control payloads -/

namespace Wire

theorem length_putBytesWith {v : Varint} (hv : v.IsLeb128) (d : Bytes) :
    (putBytesWith v d).length = prefixedLen d.length := by
  simp [putBytesWith, hv.put_eq, prefixedLen, length_putVarint]

theorem length_putBytes (d : Bytes) : (putBytes d).length = prefixedLen d.length :=
  length_putBytesWith Varint.isLeb128_leb128 d

theorem length_putTextWith {v : Varint} (hv : v.IsLeb128) (s : String) :
    (putTextWith v s).length = prefixedLen (Utf8.encode s).length :=
  length_putBytesWith hv _

theorem length_putText (s : String) : (putText s).length = prefixedLen (Utf8.encode s).length :=
  length_putTextWith Varint.isLeb128_leb128 s

theorem length_encode (s : String) : (Utf8.encode s).length = s.utf8ByteSize := by
  unfold Utf8.encode
  rw [Array.length_toList]
  exact String.size_toByteArray

@[simp] theorem prefixedLen_zero : prefixedLen 0 = 1 := by
  simp [prefixedLen, varintLen_eq]

end Wire

namespace Payload

theorem length_connectWith {v : Wire.Varint} (hv : v.IsLeb128) (app : String) (hail : Bytes) :
    (connectWith v app hail).length = connectLen app hail := by
  simp [connectWith, connectLen, Wire.length_putTextWith hv, Wire.length_putBytesWith hv]

theorem length_connect (app : String) (hail : Bytes) : (connect app hail).length = connectLen app hail :=
  length_connectWith Wire.Varint.isLeb128_leb128 app hail

theorem length_ack (es : List (Seq × Nat)) : (ack es).length = ackEntryLen * es.length := by
  induction es with
  | nil => rfl
  | cons e es ih =>
    simp only [ack, List.flatMap_cons, List.length_append] at ih ⊢
    rw [ih]
    simp [Wire.putU16, ackEntryLen]
    omega

end Payload

/-! ## Headers and the datagram writer -/

namespace Header

theorem ofControl_encodedLen {k : Control} {len : Nat} {h : Header} (hc : ofControl k len = .ok h) :
    h.encodedLen ≤ 4 := by
  obtain ⟨rfl, -⟩ := ofControl_eq hc
  simp only [encodedLen, Option.isSome_some, Option.isSome_none, if_true, Bool.false_eq_true, if_false]
  split <;> omega

theorem ofUser_encodedLen {k : Kind} {seq : Option Seq} {len : Nat} {tag : Option FragmentTag}
    {h : Header} (hu : ofUser k seq len tag = .ok h) : h.encodedLen ≤ if tag.isSome then 11 else 5 := by
  obtain ⟨rfl, -⟩ := ofUser_eq hu
  cases seq <;> cases tag <;>
    simp only [encodedLen, Option.isSome_some, Option.isSome_none, if_true, Bool.false_eq_true,
      if_false] <;> split <;> omega

theorem ofControl_ok (k : Control) {len : Nat} (h : len ≤ maxPayload) : ofControl k len = .ok
    { kind := .control, control := some k, payloadLen := len } := if_pos h

theorem ofUser_ok (k : Kind) (seq : Option Seq) {len : Nat} (tag : Option FragmentTag) (h : len ≤ maxPayload) :
    ofUser k seq len tag = .ok { kind := k, seq, payloadLen := len, fragment := tag } := if_pos h

end Header

namespace Datagram.Writer

variable {w w' : Writer} {hd : Header} {p : Bytes}

theorem mtu_write (h : w.write hd p = .ok w') : w'.mtu = w.mtu := by
  unfold write at h
  dsimp only at h
  repeat' split at h
  all_goals cases h <;> rfl

theorem write_ok (h : hd.encodedLen + p.length ≤ w.mtu) : ∃ w', w.write hd p = .ok w' := by
  unfold write
  dsimp only
  rw [if_neg (by omega)]
  split
  · split <;> exact ⟨_, rfl⟩
  · exact ⟨_, rfl⟩

end Datagram.Writer

def Queued.headroom (q : Queued) : Nat := if q.tag.isSome then Header.maxLen else Header.maxLen - 6

def Queued.Writable (mtu : Nat) (q : Queued) : Prop := q.data.length + q.headroom ≤ mtu

theorem Queued.headroom_le (q : Queued) : q.headroom ≤ Header.maxLen := by
  unfold Queued.headroom
  split <;> simp [Header.maxLen]

/-! ## Time -/

namespace Span

theorem add_onlyTime (a b : Nat) : OnlyTime (add a b) := .ite rfl

theorem after_onlyTime (now d : Nat) : OnlyTime (after now d) := .ite rfl

theorem mulCount_onlyTime (a n : Nat) : OnlyTime (mulCount a n) := .ite rfl

theorem ofSeconds_onlyTime (x : Float) : OnlyTime (ofSeconds x) := by
  intro e he
  unfold ofSeconds at he
  dsimp only at he
  repeat' split at he
  all_goals cases he <;> rfl

end Span

theorem Latency.avgRtt_onlyTime (l : Latency) : OnlyTime l.avgRtt := by
  unfold Latency.avgRtt
  split
  · exact .ok 0
  · exact Span.ofSeconds_onlyTime _
  · exact Span.ofSeconds_onlyTime _

namespace ResendSchedule

theorem entryFor_ok {α : Type} {xs : List α} (h : xs ≠ []) (n : Nat) : ∃ a, entryFor xs n = .ok a := by
  unfold entryFor
  cases hl : xs.getLast? with
  | none => exact absurd (List.getLast?_eq_none_iff.1 hl) h
  | some last => exact ⟨_, rfl⟩

theorem delay_onlyTime {r : ResendSchedule} (hb : r.baseDelays ≠ []) (hm : r.rttMultipliers ≠ [])
    (n rtt : Nat) : OnlyTime (r.delay n rtt) := by
  obtain ⟨base, hbase⟩ := entryFor_ok hb n
  obtain ⟨mult, hmult⟩ := entryFor_ok hm n
  unfold delay
  rw [hbase, hmult]
  exact .bind (.ok base) fun _ _ => .bind (.ok mult) fun _ _ =>
    .bind (Span.ofSeconds_onlyTime _) fun extra _ => Span.add_onlyTime _ _

end ResendSchedule

/-! ## The engine -/

namespace Kind

theorem byte_of_lt {k : Kind} (h : k.toRaw < count) : k.byte = .ok k.toRaw :=
  if_pos (Nat.lt_trans h (by decide))

theorem slot_of_lt {k : Kind} (h : k.toRaw < count) : k.slot = .ok k.toRaw := by
  simp [slot, byte_of_lt h, h, bind, Except.bind, pure, Except.pure]

end Kind

namespace SendWindow

variable {w : SendWindow} {k : Kind}

theorem isFull_ok (h : k.toRaw < Kind.count) : ∃ b, w.isFull k = .ok b := by
  unfold isFull
  cases k.isReliable
  · exact ⟨_, rfl⟩
  · simp [Kind.slot_of_lt h, bind, Except.bind, pure, Except.pure]

theorem assign_ok (h : k.toRaw < Kind.count) : ∃ r, w.assign k = .ok r := by
  have hc := Kind.carriesSeq_eq (Nat.lt_trans h (by decide))
  unfold assign
  rw [hc]
  cases k.hasSeq
  · exact ⟨_, rfl⟩
  · simp [Kind.slot_of_lt h, bind, Except.bind, pure, Except.pure]

variable {rs : ResendSchedule} {now rtt : Nat}

theorem store_onlyTime {m : Queued} (hk : m.kind.toRaw < Kind.count) (hr : m.kind.isReliable = true)
    (hb : rs.baseDelays ≠ []) (hm : rs.rttMultipliers ≠ []) (seq : Seq) :
    OnlyTime (w.store m seq now rs rtt) := by
  unfold store
  simp only [hr, Bool.not_true, Bool.false_eq_true, if_false, Kind.slot_of_lt hk]
  exact .bind (rs.delay_onlyTime hb hm 1 rtt) fun _ _ =>
    .bind (Span.after_onlyTime _ _) fun _ _ => .bind (.ok _) fun _ _ => .ok _

theorem visit_onlyTime (hb : rs.baseDelays ≠ []) (hm : rs.rttMultipliers ≠ [])
    (acc : List Stored × ResendPass × Option Nat) (s : Stored) : OnlyTime (visit now rs rtt acc s) := by
  obtain ⟨kept, pass, e⟩ := acc
  unfold visit
  dsimp only
  split
  · exact .ok _
  · split
    · exact .ok _
    · exact .bind (rs.delay_onlyTime hb hm _ rtt) fun _ _ =>
        .bind (Span.after_onlyTime _ _) fun _ _ => .ok _

theorem resendDue_onlyTime (hb : rs.baseDelays ≠ []) (hm : rs.rttMultipliers ≠ []) :
    OnlyTime (w.resendDue now rs rtt) := by
  unfold resendDue
  dsimp only
  split
  · split
    · exact .ok _
    · rw [← Array.foldlM_toList]
      refine .bind (.foldlM (fun acc lst => ?_) _ _) fun _ _ => .ok _
      exact .bind (.foldlM (visit_onlyTime hb hm) lst _) fun _ _ => .ok _
  · exact .ok _

end SendWindow

theorem Assembler.add_ok (a : Assembler) {tag : FragmentTag} (h : tag.index < tag.total) (data : Bytes)
    (now : Nat) : ∃ r, a.add tag data now = .ok r := by
  unfold Assembler.add
  dsimp only
  split
  · exact ⟨_, rfl⟩
  · rename_i hlen
    rw [dif_pos (by omega)]
    split
    · exact ⟨_, rfl⟩
    · split <;> exact ⟨_, rfl⟩

namespace ReceiveWindow

variable {w : ReceiveWindow} {P : Inbound → Prop}

def Holds (P : Inbound → Prop) (w : ReceiveWindow) : Prop := ∀ l ∈ w.withheld, ∀ x ∈ l, P x.2

theorem Holds.mem_withheldOf (hw : w.Holds P) (ch : Nat) : ∀ x ∈ w.withheldOf ch, P x.2 := by
  intro x hx
  unfold ReceiveWindow.withheldOf at hx
  rw [Array.getD_eq_getD_getElem?] at hx
  cases hl : w.withheld[ch]? with
  | none => simp [hl] at hx
  | some l =>
    rw [hl, Option.getD_some] at hx
    exact hw l (Array.mem_of_getElem? hl) x hx

theorem Holds.setWithheld (hw : w.Holds P) {ch : Nat} {l : List (Seq × Inbound)} (hl : ∀ x ∈ l, P x.2) :
    Holds P { w with withheld := w.withheld.setIfInBounds ch l } := by
  intro l' hl'
  rcases Array.mem_or_eq_of_mem_setIfInBounds hl' with h | rfl
  · exact hw l' h
  · exact hl

theorem holds_clear (w : ReceiveWindow) : w.clear.Holds P := by
  intro l hl x hx
  obtain ⟨-, rfl⟩ := Array.mem_replicate.1 hl
  cases hx

theorem releaseWithheld_holds {held : List (Seq × Inbound)} (hheld : ∀ x ∈ held, P x.2) (s : Seq)
    (fuel : Nat) : (∀ m ∈ (releaseWithheld held s fuel).1, P m) ∧
      ∀ x ∈ (releaseWithheld held s fuel).2.1, P x.2 := by
  induction fuel generalizing held s with
  | zero => exact ⟨(fun _ hm => by cases hm), hheld⟩
  | succ fuel ih =>
    unfold releaseWithheld
    split
    · rename_i m hfind
      have hrest := ih (fun x (hx : x ∈ held.filter (·.1 != s)) => hheld x (List.mem_of_mem_filter hx))
        s.next
      refine ⟨fun x hx => ?_, hrest.2⟩
      rcases List.mem_cons.1 hx with rfl | hx
      · exact hheld _ (List.mem_of_find?_eq_some hfind)
      · exact hrest.1 x hx
    · exact ⟨(fun _ hm => by cases hm), hheld⟩

/-- An application message on a channel of its method is classified without a crash; what it
delivers, and what the window withholds after it, is that message or was withheld before. -/
theorem receive_spec {msg : Inbound} {m : Delivery} {ch : Nat} (hk : msg.kind = .user m ch)
    (hch : ch < m.channels) (hw : w.Holds P) (hm : P msg) (now : Nat) :
    ∃ v del w', w.receive msg now = .ok (v, del, w') ∧ (∀ x ∈ del, P x) ∧ w'.Holds P := by
  have hraw : msg.kind.toRaw < Kind.count := hk ▸ Kind.toRaw_user_lt hch
  have hone : ∀ x ∈ [msg], P x := fun x hx => by rw [List.mem_singleton.1 hx]; exact hm
  have hnone : ∀ x ∈ ([] : List Inbound), P x := fun _ hx => by cases hx
  unfold receive
  rw [hk] at hraw ⊢
  cases msg.seq with
  | none => exact ⟨_, _, _, rfl, hone, hw⟩
  | some s =>
    simp only [Kind.byte_of_lt hraw, bind, Except.bind, Nat.not_le.2 hraw, if_false]
    -- the acknowledgement queue and the expected numbers leave the withheld messages alone
    generalize hw₁ : (if m.isReliable = true then w.queueAck s (Kind.user m ch).toRaw now else w) = w₁
    have hw₁' : w₁.Holds P := by
      rw [← hw₁]
      split
      · exact hw
      · exact hw
    cases m with
    | unreliable => exact ⟨_, _, _, rfl, hone, hw₁'⟩
    | unreliableSequenced | reliableSequenced =>
      dsimp only
      split
      · exact ⟨_, _, _, rfl, hnone, hw₁'⟩
      · exact ⟨_, _, _, rfl, hone, hw₁'⟩
    | reliableUnordered =>
      dsimp only
      split
      · exact ⟨_, _, _, rfl, hnone, hw₁'⟩
      · split
        · exact ⟨_, _, _, rfl, hone, hw₁'⟩
        · exact ⟨_, _, _, rfl, hone, hw₁'⟩
    | reliableOrdered =>
      have hheld := hw₁'.mem_withheldOf ch
      dsimp only
      split
      · exact ⟨_, _, _, rfl, hnone, hw₁'⟩
      · split
        · rename_i hpast
          exact absurd hch (by simpa [Delivery.channels] using hpast)
        split
        · split
          · exact ⟨_, _, _, rfl, hnone, hw₁'⟩
          · refine ⟨_, _, _, rfl, hnone, hw₁'.setWithheld fun x hx => ?_⟩
            rcases List.mem_append.1 hx with hx | hx
            · exact hheld x hx
            · rw [List.mem_singleton.1 hx]
              exact hm
        · have hrel := releaseWithheld_holds hheld s.next ((w₁.withheldOf ch).length + 1)
          refine ⟨_, _, _, rfl, fun x hx => ?_, ?_⟩
          · rcases List.mem_cons.1 hx with rfl | hx
            · exact hm
            · exact hrel.1 x hx
          · exact Holds.setWithheld (w := w₁.setExpected _ _) hw₁' hrel.2

end ReceiveWindow

end ReliableUdp
