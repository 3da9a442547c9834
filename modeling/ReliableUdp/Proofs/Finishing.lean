import ReliableUdp.Proofs.Draining
import ReliableUdp.Proofs.LastMessage

/-!
# Finishing a disconnect

Finishing drains the queues, acknowledges, writes Disconnect and closes; every piece the drain
held back was blocked when it ended and is dropped by the close. So everything queued is
written before Disconnect exactly when nothing was blocked.
-/

namespace ReliableUdp
namespace Connection

variable {s : Settings}

theorem writeControl_writes (c : Connection) (k : Control) (p : Bytes) (now : Nat) :
    Step.Under s (c.writeControl k p now) fun c' => ∃ h w, Header.ofControl k p.length = .ok h ∧
      c.writer.write h p = .ok w ∧ c' = { c with writer := w, lastSent := now } := by
  unfold writeControl
  exact .bind .crash fun h hh => .bind .crash fun w hw => .pure ⟨h, w, hh, hw, rfl⟩

def Acknowledges (es : List (Seq × Nat)) (m : Header × Bytes) : Prop :=
  Header.ofControl .acknowledge (Payload.ack es).length = .ok m.1 ∧ m.2 = Payload.ack es

theorem Acknowledges.of_forall₂ {parts : List (List (Seq × Nat))} {acks : List (Header × Bytes)}
    (h : List.Forall₂ Acknowledges parts acks) : ∀ a ∈ acks, ∃ es, Acknowledges es a := by
  induction h with
  | nil => simp
  | cons ha _ ih =>
    intro a hmem
    rcases List.mem_cons.1 hmem with rfl | hmem
    · exact ⟨_, ha⟩
    · exact ih a hmem

theorem foldlM_acknowledge (now : Nat) (parts : List (List (Seq × Nat))) (c : Connection) :
    Step.Under s (parts.foldlM (fun c part => c.writeControl .acknowledge (Payload.ack part) now) c)
      fun c' => ∃ acks, List.Forall₂ Acknowledges parts acks ∧ Datagram.Writer.Writes c.writer acks c'.writer ∧
        c' = { c with writer := c'.writer, lastSent := c'.lastSent } := by
  induction parts generalizing c with
  | nil => exact .pure ⟨[], .nil, .nil _, rfl⟩
  | cons part parts ih =>
    rw [List.foldlM_cons]
    refine .bind (writeControl_writes c _ _ now) fun c₁ ⟨h, w, hh, hw, hc₁⟩ => (ih c₁).mono ?_
    rintro c' ⟨acks, hall, hws, hc'⟩
    subst hc₁
    refine ⟨(h, Payload.ack part) :: acks, .cons ⟨hh, rfl⟩ hall, .cons hw hws, ?_⟩
    rw [hc']

theorem flushAcks_acks (c : Connection) (now : Nat) :
    Step.Under s (c.flushAcks now) fun c' => ∃ acks,
      List.Forall₂ Acknowledges (chunks ((c.writer.mtu - Header.maxLen) / Payload.ackEntryLen) c.receiveWindow.acks) acks ∧
      Datagram.Writer.Writes c.writer acks c'.writer ∧
      c' = { c with
        writer := c'.writer, lastSent := c'.lastSent
        receiveWindow := if c.receiveWindow.acks.isEmpty then c.receiveWindow else c.receiveWindow.takeAcks.2 } := by
  unfold flushAcks
  split
  · rename_i he
    have hnil : c.receiveWindow.acks = [] := List.isEmpty_iff.1 he
    exact .pure ⟨[], by simp [hnil, chunks, chunks.go], .nil _, by simp⟩
  · refine (foldlM_acknowledge now _ _).mono ?_
    rintro c' ⟨acks, hall, hws, hc'⟩
    refine ⟨acks, hall, hws, ?_⟩
    rw [hc']
    simp [ReceiveWindow.takeAcks]

theorem close_closes (c : Connection) (reason : String) (hs : c.status ≠ .disconnected) :
    Step.Under s (c.close reason) fun c' =>
      c'.writer = c.writer ∧ c'.status = .disconnected ∧ c'.handle.outbound = [] := by
  unfold close setStatus
  rw [if_neg hs]
  refine .bind (.release _) fun _ _ => .bind (.release _) fun _ _ => ?_
  dsimp only
  split
  · rename_i heq
    exact .pure ⟨rfl, heq, rfl⟩
  · exact .bind (.emit _) fun _ _ => .pure ⟨rfl, rfl, rfl⟩

theorem finishDisconnect_sending {c : Connection} {reason : String} {now : Nat}
    (hs : c.status = .connected ∨ c.status = .disconnecting) :
    c.finishDisconnect reason now = (do
      let (_, c) ← c.drainOutbound now
      let c ← c.flushAcks now
      let max := (← Step.settings).maxPayload
      let c ← c.writeControl .disconnect (Wire.putText (Payload.disconnectReason reason max)) now
      c.close reason) := by
  unfold finishDisconnect
  rcases hs with hs | hs <;> rw [hs]

/-- What finishing a disconnect of `c` at `now` did, ending in `c'`. The queued messages went out
as the pieces of a drain from `c` with its throttle brought up to date. The drain's first sends,
then Acknowledge messages, then Disconnect with `reason` were written, in that order. Every
piece the drain held back was blocked when it ended, and `c'` is closed with empty queues. -/
def FinishedDisconnect (s : Settings) (c : Connection) (reason : String) (now : Nat) (c' : Connection) : Prop :=
  ∃ oh on ol c₁ acks h,
    Queued.Expands s.maxPayload c.handle.outbound ((oh ++ on ++ ol).map Outcome.piece) ∧
    Drains s now { c with
        throttle := c.throttle.update now s.throttleRate
        handle := { c.handle with high := [], normal := [], low := [] } } (oh ++ on ++ ol) c₁ ∧
    (∀ m ∈ Outcome.heldBack (oh ++ on ++ ol), c₁.Blocked s m.kind) ∧
    (∀ a ∈ acks, ∃ es, Acknowledges es a) ∧
    Header.ofControl .disconnect (Wire.putText (Payload.disconnectReason reason s.maxPayload)).length = .ok h ∧
    Datagram.Writer.Writes c.writer ((Outcome.dispatches (oh ++ on ++ ol)).map Dispatch.msg ++ acks ++
      [(h, Wire.putText (Payload.disconnectReason reason s.maxPayload))]) c'.writer ∧
    c'.status = .disconnected ∧ c'.handle.outbound = []

/-- Finishing a disconnect writes the queued messages before Disconnect only as far as one drain
gets: the close that follows drops every piece the drain held back, and each of those was
blocked by the throttle or by its kind's full window when the drain ended. -/
theorem finishDisconnect_drops_only_blocked {c : Connection} {reason : String} {now : Nat}
    (hs : c.status = .connected ∨ c.status = .disconnecting) :
    Step.Under s (c.finishDisconnect reason now) (c.FinishedDisconnect s reason now) := by
  have hdrain : c.status ≠ .disconnected := by rcases hs with hs | hs <;> rw [hs] <;> decide
  rw [finishDisconnect_sending hs]
  refine .bind (drainOutbound_drains c now) fun ⟨_, cr⟩ ⟨oh, on, ol, c₁, hh, hn, hl, hd, hr⟩ => ?_
  refine .bind (flushAcks_acks _ now) fun c₂ ⟨acks, hacks, hwa, hc₂⟩ => ?_
  refine .bind .settings fun s' hs' => ?_
  subst s'
  refine .bind (writeControl_writes _ _ _ now) fun c₃ ⟨h, w, hdh, hw, hc₃⟩ => ?_
  dsimp only at hr
  subst hr hc₃
  -- the drain, the flush and Disconnect leave the status as it was, so the close empties the queues
  have hst : c₂.status ≠ .disconnected := by
    rw [hc₂]
    exact hd.frame.2.1 ▸ hdrain
  refine (close_closes { c₂ with writer := w, lastSent := now } reason hst).mono fun c' ⟨hwc, hdis, hout⟩ => ?_
  have hw₁ : Datagram.Writer.Writes c.writer ((Outcome.dispatches (oh ++ on ++ ol)).map Dispatch.msg) c₁.writer :=
    hd.writes
  refine ⟨oh, on, ol, c₁, acks, h, ?_, hd, hd.held_blocked, Acknowledges.of_forall₂ hacks, hdh, ?_, hdis, hout⟩
  · simpa [Handle.outbound] using (hh.append hn).append hl
  · rw [hwc]
    exact (hw₁.append hwa).append (.single hw)


theorem finishDisconnect_drops_only_blocked_window_one :
    ∃ c : Connection, c.status = .connected ∧ c.handle.outbound.length = 2 ∧
      Step.Under { appId := "app", windowSize := 1 } (c.finishDisconnect "bye" 2)
        (c.FinishedDisconnect { appId := "app", windowSize := 1 } "bye" 2) :=
  let m (b : UInt8) : Queued := { payload := { id := b.toNat, data := [b] }, kind := .user .reliableOrdered 0 }
  let c : Connection :=
    { handle := { Handle.create 0 (.localhost 6000) 1200 with status := .connected, normal := [m 1, m 2] }
      status := .connected, initiator := true, writer := .empty 1408, latency := Latency.start 0.25 0
      sendWindow := { window := 1 }, assembler := { timeout := 30000 }, handshake := { started := 0 }
      lastSent := 0, throttle := { lastUpdate := 0 } }
  ⟨c, rfl, rfl, finishDisconnect_drops_only_blocked (.inl rfl)⟩

end Connection

/-- An outgoing connection with a window of one connects, is given the messages 01 and 02 on
the reliable ordered channel 0 at normal priority, and finishes a disconnect. It writes 01 and
then Disconnect: 02 waits for the window, still holding 01, and the close drops it. -/
theorem finish_disconnect_drops_held_reliable :
    ∃ ts s, Run (.outgoing 0 (.localhost 6000) 1200 [7] 0) (Shared.create { appId := "app", windowSize := 1 }) ts s ∧
      ts.map Turn.op = [.heartbeat 0,
        .receive { kind := .control, control := some .connectResponse, payloadLen := 1 } (Wire.putBytes []) 1,
        .request (.send .reliableOrdered 0 [1] .normal), .request (.send .reliableOrdered 0 [2] .normal),
        .finishDisconnect "bye" 2] ∧
      s.wire = [({ kind := .control, control := some .connect, payloadLen := (Payload.connect "app" [7]).length },
          Payload.connect "app" [7]),
        ({ kind := .control, control := some .connectionEstablished, payloadLen := 0 }, []),
        ({ kind := .user .reliableOrdered 0, seq := some (Seq.ofNat 0), payloadLen := 1 }, [1]),
        ({ kind := .control, control := some .disconnect, payloadLen := 4 }, Wire.putText "bye")] := by
  obtain ⟨ts, s, hr, hops, hc⟩ := Run.of_runAll (.outgoing 0 (.localhost 6000) 1200 [7] 0)
    [.heartbeat 0, .receive { kind := .control, control := some .connectResponse, payloadLen := 1 } (Wire.putBytes []) 1,
      .request (.send .reliableOrdered 0 [1] .normal), .request (.send .reliableOrdered 0 [2] .normal),
      .finishDisconnect "bye" 2]
    (Shared.create { appId := "app", windowSize := 1 }) (fun x => x.1.writer.content)
    (Datagram.Writer.encoding
      [({ kind := .control, control := some .connect, payloadLen := (Payload.connect "app" [7]).length },
          Payload.connect "app" [7]),
        ({ kind := .control, control := some .connectionEstablished, payloadLen := 0 }, []),
        ({ kind := .user .reliableOrdered 0, seq := some (Seq.ofNat 0), payloadLen := 1 }, [1]),
        ({ kind := .control, control := some .disconnect, payloadLen := 4 }, Wire.putText "bye")])
    (by decide +kernel)
  refine ⟨ts, s, hr, hops, hr.wire_eq (by rw [hops]; simp) ?_ hc⟩
  intro m hm
  simp only [List.mem_cons, List.not_mem_nil, or_false] at hm
  rcases hm with rfl | rfl | rfl | rfl
  · exact Header.ofControl_wellFormed (k := .connect) (by decide +kernel)
  · exact Header.ofControl_wellFormed (k := .connectionEstablished) (by decide +kernel)
  · exact Header.ofUser_wellFormed (q := { payload := { id := 0, data := [1] }, kind := .user .reliableOrdered 0 })
      ⟨⟨.reliableOrdered, 0, rfl, by decide⟩, by simp [Queued.tag]⟩ rfl
      (by decide +kernel : Header.ofUser (.user .reliableOrdered 0) (some (Seq.ofNat 0)) 1 none =
        .ok { kind := .user .reliableOrdered 0, seq := some (Seq.ofNat 0), payloadLen := 1 })
  · exact Header.ofControl_wellFormed (k := .disconnect) (by decide +kernel)

end ReliableUdp
