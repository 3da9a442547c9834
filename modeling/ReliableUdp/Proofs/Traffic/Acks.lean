import ReliableUdp.Proofs.Traffic.Runs
import ReliableUdp.Proofs.ControlCodecs

/-!
# Every acknowledgement owed is written once

Along every run of an open connection, the Acknowledge entries written, then those still owed,
are the acknowledgements of the messages taken in, in order and each once (`Act.Owes`).
-/

namespace ReliableUdp

namespace Connection

theorem flatten_chunks_go {α : Type} {n : Nat} (hn : 0 < n) :
    ∀ (fuel : Nat) (xs : List α), xs.length ≤ fuel → (chunks.go n fuel xs).flatten = xs
  | 0, xs, h => by simp_all [chunks.go]
  | _ + 1, [], _ => by simp [chunks.go]
  | fuel + 1, x :: xs, h => by
    have hlen : ((x :: xs).drop n).length ≤ fuel := by
      simp only [List.length_drop, List.length_cons] at h ⊢
      omega
    simp only [chunks.go, List.flatten_cons, flatten_chunks_go hn fuel _ hlen, List.take_append_drop]

theorem flatten_chunks {α : Type} {n : Nat} (hn : 0 < n) (xs : List α) : (chunks n xs).flatten = xs :=
  flatten_chunks_go hn _ xs le_rfl

theorem mem_of_mem_chunks_go {α : Type} {n : Nat} {part : List α} {e : α} :
    ∀ (fuel : Nat) (xs : List α), part ∈ chunks.go n fuel xs → e ∈ part → e ∈ xs
  | 0, _, h, _ => by simp [chunks.go] at h
  | _ + 1, [], h, _ => by simp [chunks.go] at h
  | fuel + 1, x :: xs, h, he => by
    unfold chunks.go at h
    rcases List.mem_cons.1 h with rfl | h
    · exact List.mem_of_mem_take he
    · exact List.mem_of_mem_drop (mem_of_mem_chunks_go fuel _ h he)

def AcknowledgesWithin (mtu : Nat) (es : List (Seq × Nat)) (m : Header × Bytes) : Prop :=
  Acknowledges es m ∧ Payload.readAck m.2 = .ok (es, []) ∧ m.1.encodedLen + m.2.length ≤ mtu

theorem acknowledgesWithin_of_forall₂ {mtu : Nat} {parts : List (List (Seq × Nat))} {acks : List (Header × Bytes)}
    (h : List.Forall₂ Acknowledges parts acks) (hr : ∀ es ∈ parts, ∀ e ∈ es, e.2 < Kind.count)
    (hf : ∀ m ∈ acks, m.1.encodedLen + m.2.length ≤ mtu) : List.Forall₂ (AcknowledgesWithin mtu) parts acks := by
  induction h with
  | nil => exact .nil
  | @cons es m parts acks ha _ ih =>
    have hread : Payload.readAck m.2 = .ok (es, []) := by
      rw [ha.2]
      exact Payload.readAck_ack fun e he => Nat.lt_trans (hr es List.mem_cons_self e he) (by decide)
    refine .cons ⟨ha, hread, hf m List.mem_cons_self⟩ (ih ?_ ?_)
    · exact fun es' hes => hr es' (List.mem_cons_of_mem _ hes)
    · exact fun m' hm => hf m' (List.mem_cons_of_mem _ hm)

end Connection

def Message.isAck (m : Header × Bytes) : Bool := m.1.control == some .acknowledge

theorem Message.isAck_of_acknowledges {es : List (Seq × Nat)} {m : Header × Bytes}
    (h : Connection.Acknowledges es m) : Message.isAck m = true := by
  simp [Message.isAck, (Header.ofControl_eq h.1).1]

namespace Act

def ackParts : Act → List (List (Seq × Nat))
  | flush parts _ => parts
  | _ => []

/-- What the acknowledgements of `c` satisfy after entries `W` were written and `A` taken in:
the writer is for the settings' MTU and every owed entry names a type number; while open, `W`
then what is owed is `A`; once closed, nothing is owed and `W` begins `A`. -/
structure Owes (s : Settings) (c : Connection) (W A : List (Seq × Nat)) : Prop where
  mtu : c.writer.mtu = s.mtu
  raw : ∀ e ∈ c.receiveWindow.acks, e.2 < Kind.count
  owed : c.status ≠ .disconnected → W ++ c.receiveWindow.acks = A
  closed : c.status = .disconnected → c.receiveWindow.acks = [] ∧ W <+: A

variable {s : Settings} {a : Act} {c c' : Connection} {W A : List (Seq × Nat)}

theorem Owes.congr (h : Owes s c W A) (hm : c'.writer.mtu = c.writer.mtu)
    (ha : c'.receiveWindow.acks = c.receiveWindow.acks) (hs : c'.status = c.status) : Owes s c' W A where
  mtu := hm.trans h.mtu
  raw := ha ▸ h.raw
  owed := hs ▸ ha ▸ h.owed
  closed := hs ▸ ha ▸ h.closed

theorem Does.mtu (ha : a.Does s c c') : c'.writer.mtu = c.writer.mtu := ha.writes.fits.1

theorem Does.acknowledges (ha : a.Does s c c') (h : Owes s c W A) :
    List.Forall₂ (Connection.AcknowledgesWithin s.mtu) a.ackParts (a.msgs.filter Message.isAck) := by
  -- every act but a flush writes no Acknowledge message
  have hnone : ∀ ms : List (Header × Bytes), (∀ m ∈ ms, m.1.control ≠ some .acknowledge) →
      ms.filter Message.isAck = [] := fun ms hms =>
    List.filter_eq_nil_iff.2 fun m hm => by simpa [Message.isAck] using hms m hm
  cases a with
  | other ms => exact hnone ms (fun m hm => (ha.2.1 m hm).2) ▸ .nil
  | drain now oh on ol =>
    obtain ⟨-, -, -, -, hp, c₁, hd, -⟩ := ha
    refine hnone _ (fun m hm => ?_) ▸ .nil
    rw [(hd.wellFormed hp m hm).2]
    nofun
  | flush parts acks =>
    obtain ⟨-, rfl, hall, hw, -⟩ := ha
    have hfilter : acks.filter Message.isAck = acks := List.filter_eq_self.2 fun m hm =>
      have ⟨_, hes⟩ := Connection.Acknowledges.of_forall₂ hall m hm
      Message.isAck_of_acknowledges hes
    rw [msgs, hfilter]
    exact Connection.acknowledgesWithin_of_forall₂ hall
      (fun es hes e he => h.raw e (Connection.mem_of_mem_chunks_go _ _ hes he)) fun m hm => h.mtu ▸ hw.fits.2 m hm
  | enter | enqueue | close | intake => exact .nil

theorem Does.owes (hs : s.Sized) (ha : a.Does s c c') (h : Owes s c W A) :
    Owes s c' (W ++ a.ackParts.flatten) (A ++ a.entries) := by
  have hm := ha.mtu
  have hacks := ha.acks
  have hstatus := ha.status
  cases a with
  | other ms | enqueue q p | drain now oh on ol =>
    simpa [ackParts, entries] using h.congr hm hacks hstatus
  | enter st =>
    obtain ⟨hc, hst, -, -⟩ := ha
    dsimp only [Act.status, Act.owed] at hacks hstatus
    refine ⟨hm.trans h.mtu, hacks ▸ h.raw, fun _ => ?_, fun hd => absurd (hstatus ▸ hd) hst⟩
    simpa [ackParts, entries, hacks] using h.owed hc
  | flush parts acks =>
    obtain ⟨hne, rfl, -, -, -⟩ := ha
    dsimp only [Act.status, Act.owed] at hacks hstatus
    -- the parts hold every owed entry, in order
    have hflat : (Connection.chunks (ackChunk c.writer.mtu) c.receiveWindow.acks).flatten = c.receiveWindow.acks :=
      Connection.flatten_chunks (by rw [h.mtu]; exact hs.ackChunk_pos) _
    refine ⟨hm.trans h.mtu, by simp [hacks], fun hd => ?_, fun hd => absurd (h.closed (hstatus ▸ hd)).1 hne⟩
    simp only [hacks, ackParts, hflat, entries, List.append_nil]
    exact h.owed (hstatus ▸ hd)
  | close =>
    have hc : c.status ≠ .disconnected := ha.1
    dsimp only [Act.status, Act.owed] at hacks hstatus
    refine ⟨hm.trans h.mtu, by simp [hacks], fun hd => absurd hstatus hd, fun _ => ⟨hacks, ?_⟩⟩
    -- what was owed is forgotten
    simp only [ackParts, entries, List.flatten_nil, List.append_nil]
    exact h.owed hc ▸ List.prefix_append _ _
  | intake hd =>
    obtain ⟨hc, -, hraw, -⟩ := ha
    dsimp only [Act.status, Act.owed] at hacks hstatus
    refine ⟨hm.trans h.mtu, fun e he => ?_, fun _ => ?_, fun hd' => absurd (hstatus ▸ hd') hc⟩
    · rcases List.mem_append.1 (hacks ▸ he) with he | he
      · exact h.raw e he
      · exact hraw e he
    · simp only [hacks, ackParts, entries, List.flatten_nil, List.append_nil, ← List.append_assoc, h.owed hc]

theorem History.owes (hs : s.Sized) {as : List Act} (h : History s c as c') (ho : Owes s c W A) :
    Owes s c' (W ++ (as.flatMap ackParts).flatten) (A ++ as.flatMap entries) ∧
      List.Forall₂ (Connection.AcknowledgesWithin s.mtu) (as.flatMap ackParts)
        ((as.flatMap msgs).filter Message.isAck) := by
  induction h generalizing W A with
  | nil => exact ⟨by simpa using ho, .nil⟩
  | act ha _ ih =>
    obtain ⟨ho', hall⟩ := ih (ha.owes hs ho)
    refine ⟨by simpa [List.flatMap_cons, List.flatten_append, List.append_assoc] using ho', ?_⟩
    rw [List.flatMap_cons, List.flatMap_cons, List.filter_append]
    exact List.rel_append (ha.acknowledges ho) hall
  | take _ ih => exact ih (ho.congr (Connection.takeDatagrams_traffic _).2 rfl rfl)

end Act

/-- Along every run under validated settings, the Acknowledge messages written, each fitting
the MTU and reading back as its entries, followed by the acknowledgements still owed, are those
of the reliable application messages taken in, in arrival order; once the connection is closed
nothing is owed, and what was written begins that list. -/
theorem owed_acknowledgements_written_once {o : Origin} {sh : Shared} {ts : List Turn} {x : Snap}
    (hs : sh.settings.Sized) (h : Run o sh ts x) :
    ∃ parts, List.Forall₂ (Connection.AcknowledgesWithin sh.settings.mtu) parts (x.wire.filter Message.isAck) ∧
      (x.conn.status ≠ .disconnected → parts.flatten ++ x.conn.receiveWindow.acks = ts.flatMap Turn.arrivals) ∧
      (x.conn.status = .disconnected →
        x.conn.receiveWindow.acks = [] ∧ parts.flatten <+: ts.flatMap Turn.arrivals) := by
  obtain ⟨c₀, as, htr, hmtu, hh, hwire, he, -⟩ := h.history
  have h₀ : Act.Owes sh.settings c₀ [] [] := by
    have hacks : c₀.receiveWindow.acks = [] := by simpa [Traffic.fresh] using congrArg Traffic.acks htr
    have hst : c₀.status = .connecting := by simpa [Traffic.fresh] using congrArg Traffic.status htr
    refine ⟨hmtu, by simp [hacks], fun _ => by rw [hacks]; rfl, fun hd => ?_⟩
    rw [hst] at hd
    cases hd
  obtain ⟨ho, hall⟩ := hh.owes hs h₀
  refine ⟨as.flatMap Act.ackParts, hwire ▸ hall, fun hd => ?_, fun hd => ?_⟩
  · simpa [he] using ho.owed hd
  · simpa [he] using ho.closed hd

theorem owed_acknowledgements_written_once_accepted :
    demoShared.settings.Sized ∧ ∃ ts x, Run demoAccepted demoShared ts x ∧
      ts.map Turn.op = [.heartbeat 1,
        .receive { kind := .user .reliableOrdered 0, seq := some (Seq.ofNat 0), payloadLen := 1 } [5] 2,
        .finishDisconnect "bye" 3] ∧
      ∃ parts, List.Forall₂ (Connection.AcknowledgesWithin demoShared.settings.mtu) parts (x.wire.filter Message.isAck) ∧
        (x.conn.status ≠ .disconnected → parts.flatten ++ x.conn.receiveWindow.acks = ts.flatMap Turn.arrivals) ∧
        (x.conn.status = .disconnected →
          x.conn.receiveWindow.acks = [] ∧ parts.flatten <+: ts.flatMap Turn.arrivals) := by
  have hs : demoShared.settings.Sized := ⟨by decide, by decide, by decide, by decide, nofun⟩
  obtain ⟨ts, x, hr, hops, -⟩ := Run.of_runAll demoAccepted [.heartbeat 1,
      .receive { kind := .user .reliableOrdered 0, seq := some (Seq.ofNat 0), payloadLen := 1 } [5] 2,
      .finishDisconnect "bye" 3] demoShared (fun _ => ()) () (by decide +kernel)
  exact ⟨hs, ts, x, hr, hops, owed_acknowledgements_written_once hs hr⟩

/-- A connection started here ignores a reliable message that arrives before the handshake
completes: it neither writes nor owes an acknowledgement for it. -/
theorem reliable_message_unacknowledged_while_connecting :
    ∃ ts x, Run (.outgoing 0 (.localhost 6000) 1200 [] 0) demoShared ts x ∧
      ts.map Turn.op =
        [.receive { kind := .user .reliableOrdered 0, seq := some (Seq.ofNat 0), payloadLen := 1 } [5] 0] ∧
      x.wire = [] ∧ x.conn.receiveWindow.acks = [] ∧ x.conn.status = .connecting := by
  obtain ⟨ts, x, hr, hops, hv⟩ := Run.of_runAll (.outgoing 0 (.localhost 6000) 1200 [] 0)
    [.receive { kind := .user .reliableOrdered 0, seq := some (Seq.ofNat 0), payloadLen := 1 } [5] 0] demoShared
    (fun y => (y.1.writer.content, y.1.receiveWindow.acks, y.1.status)) ([], [], .connecting) (by decide +kernel)
  simp only [Prod.mk.injEq] at hv
  obtain ⟨hc, ha, hst⟩ := hv
  exact ⟨ts, x, hr, hops, hr.wire_eq (by rw [hops]; simp) (by simp) (by rw [hc]; rfl), ha, hst⟩

end ReliableUdp
