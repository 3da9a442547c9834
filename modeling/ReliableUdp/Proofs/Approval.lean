import ReliableUdp.Proofs.Lifecycle.Runs

/-!
# The approval gate

Until a heartbeat applies an approval, an incoming connection awaiting one writes no
ConnectResponse, does not connect and hands over no data, whatever arrives; the gate is
`Face.Gated`, kept by every move whose cause would not apply the approval.
-/

namespace ReliableUdp

def Turn.AppliesApproval (t : Turn) : Prop :=
  (∃ now, t.op = .heartbeat now) ∧ t.pre.conn.face.awaiting = true ∧
    ∃ hail, t.pre.conn.face.decision = some (.approve hail)

def Turn.AppliesDenial (t : Turn) : Prop :=
  (∃ now, t.op = .heartbeat now) ∧ t.pre.conn.face.awaiting = true ∧
    ∃ r, t.pre.conn.face.decision = some (.deny r)

theorem Op.heartbeat_of_tick {o : Op} (ho : o.Moves) (hκ : o.cause = .tick) : ∃ now, o = .heartbeat now := by
  cases o with
  | heartbeat now => exact ⟨now, rfl⟩
  | request | take => exact ho.elim
  | _ => cases hκ

/-- What holds of an incoming connection until its approval is applied: it waits, or was closed
while it waited, it has written no ConnectResponse, and it has released no data since `sh`. -/
structure Shut (sh : Shared) (s : Snap) : Prop where
  waits : s.conn.face.Waiting
  unanswered : ∀ m ∈ s.wire, ¬IsControl .connectResponse m
  quiet : ∃ E, s.shared.released.events = sh.released.events ++ E ∧ ∀ ev ∈ E, ¬ev.IsData

namespace Shut

variable {sh : Shared} {o : Op} {s s' : Snap}

theorem create {id n now : Nat} {r : Endpoint} {hail : Bytes} {s₀ : Snap}
    (hon : sh.settings.connectionApproval = true) (hc : (Origin.incoming id r n hail now).Creates sh s₀) :
    Shut sh s₀ := by
  obtain ⟨hface, -, -, -, E, hev, hdata, -⟩ := Origin.create_spec hc.1
  refine ⟨?_, (by rw [hc.2]; intro m hm; cases hm), E, hev, hdata⟩
  rw [hface]
  exact ⟨rfl, rfl, .inl ⟨rfl, hon⟩⟩

theorem turn (hsh : Shut sh s) (ht : o.Turn s s') (hs : s.conn.Sound)
    (hno : ¬((∃ now, o = .heartbeat now) ∧ s.conn.face.awaiting = true ∧
      ∃ hail, s.conn.face.decision = some (.approve hail))) : Shut sh s' := by
  rcases (ht.cases hs).2 with ⟨ho, E, M, hp, hwire⟩ | ⟨-, hf, hrel, hwire⟩
  · -- the turn's cause would not apply an approval: the path keeps the gate
    have hg : s.conn.face.Gated o.cause :=
      ⟨hsh.waits, fun ⟨hκ, ha, hd⟩ => hno ⟨Op.heartbeat_of_tick ho hκ, ha, hd⟩⟩
    obtain ⟨hg', hcr, hdata⟩ := hp.gate hg
    obtain ⟨E₀, hE₀, hq⟩ := hsh.quiet
    refine ⟨hg'.toWaiting, fun m hm => ?_, E₀ ++ E, by rw [hp.emits.2, hE₀, List.append_assoc],
      fun ev hev => ?_⟩
    · rcases List.mem_append.1 (hwire ▸ hm) with hm | hm
      · exact hsh.unanswered m hm
      · exact hcr m hm
    · rcases List.mem_append.1 hev with hev | hev
      · exact hq ev hev
      · exact hdata ev hev
  · -- a request or a take changes nothing the gate reads
    have hw : s'.conn.face.Waiting := by
      obtain ⟨hi, hr, hst⟩ := hsh.waits
      rw [hf]
      exact ⟨hi, hr, hst⟩
    exact ⟨hw, hwire ▸ hsh.unanswered, hrel ▸ hsh.quiet⟩

end Shut

/-- An incoming connection created while approval is asked for: until a heartbeat applies an
approval it has written no ConnectResponse, is not connected and has handed no data to the
application; after a heartbeat that applies a denial it is disconnected. -/
theorem approval_gates {id n now : Nat} {r : Endpoint} {hail : Bytes} {sh : Shared} {ts : List Turn}
    {s : Snap} (hr : Run (.incoming id r n hail now) sh ts s) (hon : sh.settings.connectionApproval = true) :
    ((∀ t ∈ ts, ¬t.AppliesApproval) →
      (∀ m ∈ s.wire, ¬IsControl .connectResponse m) ∧ s.conn.status ≠ .connected ∧
        ∃ E, s.shared.released.events = sh.released.events ++ E ∧ ∀ ev ∈ E, ¬ev.IsData) ∧
    (∀ t ∈ ts, t.AppliesDenial → s.conn.status = .disconnected) := by
  refine ⟨fun hno => ?_, fun t ht hden => ?_⟩
  · -- every turn keeps the gate shut
    obtain ⟨s₀, hc, hch⟩ := hr
    have hshut := (hch.holds_while (I := Shut sh)
      (fun hno ht hs hsh => hsh.turn ht hs hno) hno
      (Origin.create_spec hc.1).2.1 (Shut.create hon hc)).2
    refine ⟨hshut.unanswered, fun hc => ?_, hshut.quiet⟩
    rcases hshut.waits.waiting with ⟨hst, -⟩ | hst <;> exact absurd (hst.symm.trans hc) (by decide)
  · -- the denial closes the connection, which stays closed
    obtain ⟨_, _, -, h₁, ht₁, h₂⟩ := hr.split ht
    obtain ⟨⟨now', hop⟩, ha, hd⟩ := hden
    have hs₁ := h₁.sound
    rw [hop] at ht₁
    have hd₁ := Op.heartbeat_denies ht₁ hs₁ ha hd
    exact h₂.disconnected (ht₁.cases hs₁).1 hd₁

theorem approval_gates_before_heartbeat :
    ∃ ts s, Run (.incoming 0 (.localhost 6000) 1200 [7] 0)
        (Shared.create { appId := "app", connectionApproval := true }) ts s ∧
      ts.map Turn.op = [.receive { kind := .control, control := some .connectionEstablished, payloadLen := 0 } [] 1,
        .receive { kind := .user .unreliable 0, payloadLen := 2 } [1, 2] 2, .request .approve] ∧
      s.conn.status = .connecting ∧ (∀ m ∈ s.wire, ¬IsControl .connectResponse m) ∧
      ∃ E, s.shared.released.events = E ∧ ∀ ev ∈ E, ¬ev.IsData := by
  obtain ⟨ts, s, hr, hops, hst⟩ := Run.of_runAll (.incoming 0 (.localhost 6000) 1200 [7] 0)
    [.receive { kind := .control, control := some .connectionEstablished, payloadLen := 0 } [] 1,
      .receive { kind := .user .unreliable 0, payloadLen := 2 } [1, 2] 2, .request .approve]
    (Shared.create { appId := "app", connectionApproval := true }) (fun x => x.1.status) .connecting
    (by decide +kernel)
  -- no turn is a heartbeat
  have hno : ∀ t ∈ ts, ¬t.AppliesApproval := by
    rintro t ht ⟨⟨now, hop⟩, -⟩
    have := List.mem_map_of_mem (f := Turn.op) ht
    rw [hops, hop] at this
    simp at this
  obtain ⟨hcr, -, E, hE, hdata⟩ := (approval_gates hr rfl).1 hno
  exact ⟨ts, s, hr, hops, hst, hcr, E, hE.trans (List.nil_append E), hdata⟩

end ReliableUdp
