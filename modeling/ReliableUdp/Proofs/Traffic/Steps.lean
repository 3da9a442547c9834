import ReliableUdp.Proofs.Traffic.Acts

/-!
# Every function of a connection acts on its traffic

One lemma per function of a connection: the acts it makes (`Step.Acts`), or, for one that only
writes, that it keeps the traffic (`Step.Keeps`).
-/

namespace ReliableUdp

namespace Step.Under

variable {α : Type} {s : Settings} {x : Step α} {P : α → Prop}

theorem sound {κ : Cause} {c : Connection} {out : α → Connection} {Q : α → Prop} (hx : Under s x P)
    (hl : Leads κ c x out Q) (hc : c.Sound) : Under s x fun a => P a ∧ (out a).Sound :=
  fun sh a sh' hs hr => ⟨(hx sh a sh' hs hr).1, (hx sh a sh' hs hr).2, (hl hc sh a sh' hr).2.1⟩

theorem and {Q : α → Prop} (hx : Under s x P) (hy : Under s x Q) : Under s x fun a => P a ∧ Q a :=
  fun sh a sh' hs hr => ⟨(hx sh a sh' hs hr).1, (hx sh a sh' hs hr).2, (hy sh a sh' hs hr).2⟩

theorem forIn_unit {γ : Type} {f : γ → PUnit → Step (ForInStep PUnit)} (hf : ∀ a u, Under s (f a u) fun _ => True) :
    ∀ l : List γ, Under s (forIn l PUnit.unit f) fun _ => True
  | [] => .pure trivial
  | a :: l => by
    rw [List.forIn_cons]
    refine .bind (hf a _) fun r _ => ?_
    cases r with
    | done => exact .pure trivial
    | yield => exact forIn_unit hf l

end Step.Under

/-- `x` writes well-formed messages, none of them an Acknowledge, and leaves the traffic of `c`
alone. -/
def Step.Keeps (s : Settings) (c : Connection) (x : Step Connection) : Prop :=
  Step.Under s x fun c' => ∃ ms, (Act.other ms).Does s c c'

namespace Step.Keeps

variable {α : Type} {s : Settings} {c : Connection} {x : Step Connection}

theorem stay {c₁ : Connection} (hw : c₁.writer = c.writer) (ht : c₁.traffic = c.traffic) :
    Keeps s c (pure c₁) :=
  Under.pure ⟨[], hw ▸ .nil _, (fun _ h => by cases h), ht⟩

theorem bind {f : Connection → Step Connection} (hx : Keeps s c x)
    (hf : ∀ c₁, c₁.traffic = c.traffic → Keeps s c₁ (f c₁)) : Keeps s c (x >>= f) :=
  Under.bind hx fun c₁ ⟨ms, hw, hm, ht⟩ => (hf c₁ ht).mono fun _ ⟨ms', hw', hm', ht'⟩ =>
    ⟨ms ++ ms', hw.append hw', fun m hmem => (List.mem_append.1 hmem).elim (hm m) (hm' m), ht'.trans ht⟩

theorem after {y : Step α} {P : α → Prop} {f : α → Step Connection} (hy : Under s y P)
    (hf : ∀ a, Keeps s c (f a)) : Keeps s c (y >>= f) :=
  Under.bind hy fun a _ => hf a

theorem rebase {c₁ : Connection} (h : Keeps s c₁ x) (hw : c₁.writer = c.writer)
    (ht : c₁.traffic = c.traffic) : Keeps s c x :=
  h.mono fun _ ⟨ms, hws, hm, ht'⟩ => ⟨ms, hw ▸ hws, hm, ht'.trans ht⟩

theorem foldlM {γ : Type} {f : Connection → γ → Step Connection} {l : List γ}
    (hf : ∀ c, ∀ a ∈ l, Keeps s c (f c a)) : ∀ c, Keeps s c (l.foldlM f c) := by
  induction l with
  | nil => exact fun _ => stay rfl rfl
  | cons a l ih =>
    intro c
    rw [List.foldlM_cons]
    exact (hf c a List.mem_cons_self).bind fun c₁ _ =>
      ih (fun c a ha => hf c a (List.mem_cons_of_mem _ ha)) c₁

theorem acts (h : Keeps s c x) :
    Under s x fun c' => (∃ as, Act.Path s c as c' ∧ ∀ a ∈ as, a.Own) ∧ c'.traffic = c.traffic :=
  h.mono fun _ ⟨ms, hd⟩ => ⟨⟨[.other ms], .single hd, by simp [Act.Own]⟩, hd.2.2⟩

theorem toActs (h : Keeps s c x) : Acts s c x := h.acts.mono fun _ h => h.1

theorem before {f : Connection → Step Connection} (hx : Keeps s c x)
    (hf : ∀ c₁, c₁.traffic = c.traffic → Acts s c₁ (f c₁)) : Acts s c (x >>= f) :=
  Acts.bind hx.acts hf

end Step.Keeps

theorem Step.Acts.after_act {α : Type} {s : Settings} {c : Connection} {y : Step α}
    {out : α → Connection} {P : α → Prop} {f : α → Step Connection}
    (hy : Under s y fun r => (∃ a : Act, a.Own ∧ a.Does s c (out r)) ∧ P r)
    (hf : ∀ r, P r → Acts s (out r) (f r)) : Acts s c (y >>= f) :=
  Under.bind hy fun r ⟨⟨a, ha, hd⟩, hP⟩ => (hf r hP).mono fun _ ⟨as, hp, ho⟩ =>
    ⟨a :: as, .cons hd hp, fun b hb => (List.mem_cons.1 hb).elim (fun he => he ▸ ha) (ho b)⟩

theorem SendWindow.nextSeq_ack (w : SendWindow) (seq : Seq) (raw : Nat) : (w.ack seq raw).2.nextSeq = w.nextSeq := by
  unfold SendWindow.ack
  split
  · rfl
  · dsimp only
    split
    · split <;> rfl
    · rfl

/-- Every successful run of `x` takes `c` along a path of acts that take in the acknowledgements
`E` and queue for the application the messages `R`, given by kind, priority and data. -/
def Step.Takes (s : Settings) (c : Connection) (x : Step Connection) (E : List (Seq × Nat))
    (R : List (Kind × Priority × Bytes)) : Prop :=
  Step.Under s x fun c' => ∃ as, Act.Path s c as c' ∧ as.flatMap Act.entries = E ∧
    (as.flatMap Act.enqueued).map (fun q => (q.1.kind, q.2, q.1.payload.data)) = R

theorem Step.Acts.takes {s : Settings} {c : Connection} {x : Step Connection} (h : Acts s c x) : Takes s c x [] [] :=
  h.mono fun _ ⟨as, hp, ho⟩ => ⟨as, hp, Act.flatMap_entries_of_own ho, by rw [Act.flatMap_enqueued_of_own ho]; rfl⟩

/-! ## Writing, resending, draining and closing -/

namespace Connection

variable {s : Settings} {c : Connection}

theorem writeControl_keeps {k : Control} (hk : k ≠ .acknowledge) (p : Bytes) (now : Nat) :
    Step.Keeps s c (c.writeControl k p now) :=
  (writeControl_writes c k p now).mono fun c' ⟨h, w, hh, hw, hc'⟩ => by
    subst hc'
    refine ⟨[(h, p)], .single hw, ?_, rfl⟩
    intro m hm
    rw [List.mem_singleton.1 hm]
    refine ⟨Header.ofControl_wellFormed hh, ?_⟩
    rw [(Header.ofControl_eq hh).1]
    simpa using hk

theorem writeUser_keeps {m : Queued} {seq : Option Seq} (hm : m.Sendable)
    (hseq : seq.isSome = m.kind.hasSeq) : Step.Keeps s c (c.writeUser m seq) :=
  (writeUser_under c m seq).mono fun c' ⟨h, w, hh, hw, hc'⟩ => by
    subst hc'
    refine ⟨[(h, m.data)], .single hw, ?_, rfl⟩
    intro x hx
    rw [List.mem_singleton.1 hx]
    refine ⟨Header.ofUser_wellFormed hm hseq hh, ?_⟩
    rw [(Header.ofUser_eq hh).1]
    simp

theorem resendDue_keeps (hc : c.Sound) (now : Nat) : Step.Keeps s c (c.resendDue now) := by
  unfold resendDue
  refine Step.Under.bind .settings fun st _ => .bind .crash fun rtt _ => .bind .crash fun ⟨pass, sw⟩ hsw => ?_
  have hnext : sw.nextSeq = c.sendWindow.nextSeq := (SendWindow.resendDue_stored hsw).2.1
  -- what is resent was kept: sendable, reliable, and so numbered
  have hpass : Step.Keeps s { c with sendWindow := sw }
      (pass.resent.foldlM (fun c x => writeUser c x.1 (some x.2)) { c with sendWindow := sw }) :=
    Step.Keeps.foldlM (fun c₁ x hx => by
      have hkept := (hc.stored.resendDue hsw).2 x hx
      exact writeUser_keeps hkept.1 (by rw [Option.isSome_some, Kind.hasSeq_of_isReliable hkept.2])) _
  refine Step.Keeps.bind (hpass.rebase rfl (by simp [traffic, hnext])) fun c₁ h₁ => ?_
  extract_lets n d finish report
  -- counting, warning and releasing leave the connection as the resends wrote it
  have hfinish : ∀ u, Step.Keeps s c₁ (finish u) := fun _ =>
    Step.Keeps.after (.release _) fun _ => by split <;> exact Step.Keeps.stay rfl rfl
  have hreport : ∀ u, Step.Keeps s c₁ (report u) := by
    intro u
    simp only [report]
    split
    · exact Step.Keeps.after (.count _) fun _ => Step.Keeps.after (.emit _) hfinish
    · exact hfinish ()
  split
  · exact Step.Keeps.after (.count _) hreport
  · exact hreport ()

theorem setStatus_acts (st : Status) (reason : String) (hc : c.status ≠ .disconnected)
    (hst : st ≠ .disconnected) : Step.Acts s c (c.setStatus st reason) := by
  unfold setStatus
  split
  · exact .stay
  · exact .of_does (a := .enter st) trivial (Step.Under.bind (.emit _) fun _ _ => .pure ⟨hc, hst, rfl, rfl⟩)

theorem close_acts (reason : String) : Step.Acts s c (c.close reason) := by
  unfold close setStatus
  split
  · exact .stay
  · rename_i hs
    refine .of_does (a := .close) trivial (Step.Under.bind (.release _) fun _ _ => .bind (.release _) fun _ _ => ?_)
    dsimp only
    split
    · rename_i heq
      exact absurd heq hs
    · exact .bind (.emit _) fun _ _ => .pure ⟨hs, rfl, rfl⟩

theorem drainOutbound_acts (hs : c.status = .connected ∨ c.status = .disconnecting) (hc : c.Sound)
    (now : Nat) : Step.Under s (c.drainOutbound now) fun r => ∃ a : Act, a.Own ∧ a.Does s c r.2 :=
  (drainOutbound_pieces c now).mono fun _ ⟨oh, on, ol, c₁, hh, hn, hl, hd, hr, hp⟩ =>
    ⟨.drain now oh on ol, trivial, hs, hh, hn, hl, hp hc, c₁, hd, hr⟩

theorem flushAcks_does (now : Nat) :
    Step.Under s (c.flushAcks now) fun c' =>
      (c.receiveWindow.acks = [] ∧ (Act.other []).Does s c c') ∨
        ∃ parts acks, (Act.flush parts acks).Does s c c' := by
  refine (flushAcks_acks c now).mono fun c' ⟨acks, hall, hw, hc'⟩ => ?_
  by_cases he : c.receiveWindow.acks = []
  · -- nothing is owed, so no part is written
    have hnil : acks = [] := by
      rw [he] at hall
      cases hall
      rfl
    subst hnil
    refine .inl ⟨he, hw, (fun _ h => by cases h), ?_⟩
    rw [hc']
    simp [traffic, he]
  · refine .inr ⟨_, acks, he, rfl, hall, hw, ?_⟩
    rw [hc']
    simp [traffic, he, ReceiveWindow.takeAcks]

theorem flushAcks_acts (now : Nat) : Step.Acts s c (c.flushAcks now) :=
  (flushAcks_does now).mono fun _ h =>
    h.elim (fun ⟨_, hd⟩ => ⟨_, .single hd, by simp [Act.Own]⟩) fun ⟨_, _, hd⟩ => ⟨_, .single hd, by simp [Act.Own]⟩

/-! ## Disconnecting -/

theorem disconnectClose_acts (reason : String) (now : Nat) (c₁ : Connection) :
    Step.Acts s c₁ (do
      let max := (← Step.settings).maxPayload
      let c ← c₁.writeControl .disconnect (Wire.putText (Payload.disconnectReason reason max)) now
      c.close reason) :=
  Step.Under.bind .settings fun _ _ =>
    Step.Keeps.before (writeControl_keeps (by decide) _ now) fun _ _ => close_acts reason

theorem finishDisconnect_acts (hc : c.Sound) (reason : String) (now : Nat) :
    Step.Acts s c (c.finishDisconnect reason now) := by
  by_cases hs : c.status = .connected ∨ c.status = .disconnecting
  · rw [finishDisconnect_sending hs]
    refine Step.Acts.after_act ((drainOutbound_acts hs hc now).mono fun _ h => ⟨h, trivial⟩) fun ⟨_, c₁⟩ _ => ?_
    exact Step.Acts.bind ((flushAcks_acts now).mono fun _ h => ⟨h, trivial⟩) fun c₂ _ =>
      disconnectClose_acts reason now c₂
  · unfold finishDisconnect
    cases hst : c.status with
    | connected | disconnecting => simp [hst] at hs
    | connecting =>
      simp only [pure_bind]
      exact disconnectClose_acts reason now c
    | none | disconnected =>
      simp only
      exact close_acts reason

theorem disconnect_acts (hc : c.Sound) (reason : String) (now : Nat) :
    Step.Acts s c (c.disconnect reason now) := by
  unfold disconnect
  refine Step.Under.bind .settings fun _ _ => ?_
  dsimp only
  split
  · rename_i hst
    split
    · refine Step.Under.bind .crash fun _ _ => ?_
      exact (setStatus_acts .disconnecting reason (by simp [hst]) (by decide)).rebase rfl rfl
    · exact finishDisconnect_acts hc reason now
  · exact finishDisconnect_acts hc reason now
  · exact close_acts reason
  · exact Step.Acts.stay
  · exact Step.Acts.stay

theorem applyDecision_acts (d : Decision) (now : Nat) : Step.Acts s c (c.applyDecision d now) := by
  unfold applyDecision
  dsimp only
  split
  · refine Step.Keeps.toActs (Step.Keeps.stay ?_ ?_) <;> rfl
  · exact Step.Keeps.before (writeControl_keeps (by decide) _ now) fun _ _ => close_acts _

theorem pollRequests_acts (hc : c.Sound) (now : Nat) : Step.Acts s c (c.pollRequests now) := by
  unfold pollRequests
  extract_lets apply
  -- a pending decision is applied to the connection the disconnect left
  have happly : ∀ c₁, Step.Acts s c₁ (apply c₁) := by
    intro c₁
    simp only [apply]
    split
    · exact Step.Acts.rebase (applyDecision_acts _ now) rfl rfl
    · exact .stay
  split
  · rename_i reason _
    have hc₁ : Connection.Sound { c with handle := { c.handle with disconnectRequest := none } } :=
      hc.frame rfl rfl rfl
    have hd : Step.Acts s c _ := (disconnect_acts hc₁ reason now).rebase rfl rfl
    exact Step.Acts.bind (hd.mono fun _ h => ⟨h, trivial⟩) fun c₁ _ => happly c₁
  · simp only [pure_bind]
    exact happly c

/-! ## The periodic step -/

theorem setStatus_status (st : Status) (reason : String) :
    Step.Under s (c.setStatus st reason) fun c' => c'.status = st := by
  unfold setStatus
  split
  · rename_i h
    exact .pure h
  · exact .bind (.emit _) fun _ _ => .pure rfl

theorem established_acts (hc : c.status ≠ .disconnected) (now : Nat) : Step.Acts s c (c.established now) := by
  unfold established
  exact Step.Acts.rebase (setStatus_acts (c := { c with latency := c.latency.onResponse now }) .connected "" hc
    (by decide)) rfl rfl

theorem established_status (now : Nat) : Step.Under s (c.established now) fun c' => c'.status = .connected := by
  unfold established
  exact setStatus_status _ _

theorem sendConnectResponse_keeps (now : Nat) : Step.Keeps s c (c.sendConnectResponse now) :=
  (writeControl_keeps (by decide) _ now).rebase rfl rfl

theorem writeControl_queues (c : Connection) (k : Control) (p : Bytes) (now : Nat) :
    Step.Under s (c.writeControl k p now) fun c' =>
      c'.handle = c.handle ∧ c'.sendWindow = c.sendWindow ∧ c'.nextGroup = c.nextGroup :=
  (writeControl_writes c k p now).mono fun _ ⟨_, _, _, _, hc'⟩ => by subst hc'; exact ⟨rfl, rfl, rfl⟩

theorem handshakeHeartbeat_acts (now : Nat) : Step.Acts s c (c.handshakeHeartbeat now) := by
  unfold handshakeHeartbeat
  refine Step.Under.bind .settings fun _ _ => ?_
  split
  · extract_lets due
    split
    · exact Step.Acts.stay
    · split
      · exact close_acts _
      · exact Step.Keeps.toActs (Step.Keeps.rebase (writeControl_keeps (by decide) _ now) rfl rfl)
  · refine Step.Under.bind .crash fun _ _ => ?_
    split
    · exact close_acts _
    · split
      · exact Step.Keeps.toActs (Step.Keeps.rebase (sendConnectResponse_keeps now) rfl rfl)
      · exact Step.Acts.stay

theorem resendDue_sending (hs : c.status = .connected ∨ c.status = .disconnecting) (hc : c.Sound)
    (now : Nat) : Step.Under s (c.resendDue now) fun c' =>
      (∃ as, Act.Path s c as c' ∧ ∀ a ∈ as, a.Own) ∧ c'.status = c.status ∧ c'.Sound :=
  (((resendDue_keeps hc now).acts.sound (resendDue_leads (κ := .tick) hs) hc)).mono
    fun _ ⟨⟨hp, ht⟩, hsound⟩ => ⟨hp, congrArg Traffic.status ht, hsound⟩

theorem connectedHeartbeat_acts (hst : c.status = .connected) (hc : c.Sound) (now : Nat) :
    Step.Acts s c (c.connectedHeartbeat now) := by
  unfold connectedHeartbeat
  refine Step.Under.bind .settings fun _ _ => ?_
  split
  · exact close_acts _
  · split
    refine Step.Under.bind (Step.Under.forIn_unit (fun _ _ => .bind (.emit _) fun _ _ => .pure trivial) _)
      fun _ _ => ?_
    extract_lets c₁ keepAlive rest
    have hkeep : ∀ c₂, Step.Acts s c₂ (keepAlive c₂) := by
      intro c₂
      simp only [keepAlive]
      split
      · exact Step.Keeps.toActs (writeControl_keeps (by decide) _ now)
      · exact Step.Acts.stay
    -- after the ping: resend, drain, acknowledge, keep alive
    have hrest : ∀ c₂ : Connection, c₂.status = .connected → c₂.Sound → Step.Acts s c₂ (rest c₂) := by
      intro c₂ hs₂ hc₂
      simp only [rest]
      refine Step.Acts.bind (resendDue_sending (.inl hs₂) hc₂ now) fun c₃ ⟨hs₃, hc₃⟩ => ?_
      rw [hs₂] at hs₃
      refine Step.Acts.after_act ((drainOutbound_acts (.inl hs₃) hc₃ now).mono fun _ h => ⟨h, trivial⟩)
        fun ⟨_, c₄⟩ _ => ?_
      dsimp only
      split
      · exact Step.Acts.bind ((flushAcks_acts now).mono fun _ h => ⟨h, trivial⟩) fun c₅ _ => hkeep c₅
      · simp only [pure_bind]
        exact hkeep c₄
    split
    · split
      refine Step.Acts.bind (P := fun c₂ => c₂.status = .connected ∧ c₂.Sound) ?_ fun c₂ h₂ => hrest c₂ h₂.1 h₂.2
      refine Step.Under.mono (Step.Under.and (Step.Keeps.acts (Step.Keeps.rebase (c := c)
        (writeControl_keeps (by decide) _ now) rfl rfl)) (writeControl_queues _ _ _ now))
        fun c₂ ⟨⟨hp, ht⟩, hh, hsw, hg⟩ => ⟨hp, ?_, hc.frame (by rw [hh]) (by rw [hsw]) (by rw [hg])⟩
      rw [← traffic_status, ht]
      exact hst
    · simp only [pure_bind]
      exact Step.Acts.rebase (hrest c₁ hst (hc.frame rfl rfl rfl)) rfl rfl

theorem lingerHeartbeat_acts (hst : c.status = .disconnecting) (hc : c.Sound) (now : Nat) :
    Step.Acts s c (c.lingerHeartbeat now) := by
  unfold lingerHeartbeat
  split
  · refine Step.Acts.bind (resendDue_sending (.inr hst) hc now) fun c₁ ⟨hs₁, hc₁⟩ => ?_
    rw [hst] at hs₁
    -- the drain leaves a sound connection, from which the disconnect may finish
    refine Step.Acts.after_act ((drainOutbound_acts (.inr hs₁) hc₁ now).sound
      (drainOutbound_leads (κ := .tick) (.inr hs₁)) hc₁) fun ⟨_, c₂⟩ hc₂ => ?_
    dsimp only
    split
    · exact finishDisconnect_acts hc₂ _ now
    · exact flushAcks_acts now
  · exact Step.Acts.stay

theorem heartbeat_acts (hc : c.Sound) (now : Nat) : Step.Acts s c (c.heartbeat now) := by
  unfold heartbeat
  refine Step.Acts.bind ((pollRequests_acts hc now).sound pollRequests_leads hc) fun c₁ hc₁ => ?_
  split
  · exact handshakeHeartbeat_acts now
  · rename_i hst
    exact connectedHeartbeat_acts hst hc₁ now
  · rename_i hst
    exact lingerHeartbeat_acts hst hc₁ now
  · exact Step.Acts.stay
  · exact Step.Acts.stay

/-! ## Received messages -/

theorem onRepeatedConnect_keeps (now : Nat) : Step.Keeps s c (c.onRepeatedConnect now) := by
  unfold onRepeatedConnect
  split
  · exact sendConnectResponse_keeps now
  · exact Step.Keeps.stay rfl rfl

theorem onConnectResponse_acts (hail : Bytes) (now : Nat) : Step.Acts s c (c.onConnectResponse hail now) := by
  unfold onConnectResponse
  split
  · exact Step.Acts.stay
  · split
    · rename_i hst
      dsimp only
      -- ConnectionEstablished goes out, then the initiator enters Connected
      refine Step.Keeps.before (Step.Keeps.rebase (c := c) (writeControl_keeps (by decide) _ now) rfl rfl)
        fun c₁ h₁ => Step.Under.bind .crash fun _ _ => ?_
      have hs₁ : c₁.status = .connecting := by rw [← traffic_status, h₁]; exact hst
      exact Step.Acts.rebase (established_acts (by simp [hs₁]) now) rfl rfl
    · exact Step.Keeps.toActs (writeControl_keeps (by decide) _ now)
    · exact Step.Acts.stay

theorem onConnectionEstablished_acts (now : Nat) : Step.Acts s c (c.onConnectionEstablished now) := by
  unfold onConnectionEstablished
  split
  · rename_i hcond
    simp only [Bool.and_eq_true, decide_eq_true_eq] at hcond
    exact established_acts (by rw [hcond.1.2]; decide) now
  · exact Step.Acts.stay

theorem onPong_keeps (id now : Nat) : Step.Keeps s c (c.onPong id now) := by
  unfold onPong
  exact Step.Keeps.after .crash fun _ => Step.Keeps.stay rfl rfl

theorem onAck_keeps (now : Nat) (c : Connection) (entry : Seq × Nat) : Step.Keeps s c (onAck now c entry) := by
  unfold onAck
  split
  rename_i m sw heq
  have hnext : sw.nextSeq = c.sendWindow.nextSeq := by
    simpa [heq] using c.sendWindow.nextSeq_ack entry.1 entry.2
  split
  · exact Step.Keeps.after (.release _) fun _ => Step.Keeps.stay rfl (by simp [traffic, hnext])
  · exact Step.Keeps.stay rfl (by simp [traffic, hnext])

theorem decodeThen_acts {α : Type} {p : Bytes} {r : Reader α} {act : α → Step Connection}
    (h : ∀ a, Step.Acts s c (act a)) :
    Step.Under s (decodeThen p r act) fun r => ∀ c', r = .ok c' → ∃ as, Act.Path s c as c' ∧ ∀ a ∈ as, a.Own := by
  unfold decodeThen
  split
  · exact Step.Under.bind (h _) fun c₁ h₁ => .pure fun c' he => by cases he; exact h₁
  · exact .pure fun _ he => by cases he

theorem onControl_acts (k : Control) (p : Bytes) (now : Nat) :
    Step.Under s (c.onControl k p now) fun r => ∀ c', r = .ok c' → ∃ as, Act.Path s c as c' ∧ ∀ a ∈ as, a.Own := by
  unfold onControl
  split
  · exact decodeThen_acts fun _ => (onRepeatedConnect_keeps now).toActs
  · exact decodeThen_acts fun hail => onConnectResponse_acts hail now
  · exact Step.Under.bind (onConnectionEstablished_acts now) fun c₁ h₁ => .pure fun c' he => by cases he; exact h₁
  · exact decodeThen_acts fun reason => close_acts reason
  · exact .pure fun c' he => by cases he; exact ⟨[], .nil _, by simp⟩
  · exact .pure fun c' he => by cases he; exact ⟨[], .nil _, by simp⟩
  · exact .pure fun c' he => by cases he; exact ⟨[], .nil _, by simp⟩
  · exact decodeThen_acts fun _ => (writeControl_keeps (by decide) _ now).toActs
  · exact decodeThen_acts fun id => (onPong_keeps id now).toActs
  · exact decodeThen_acts fun entries => (Step.Keeps.foldlM (fun c₁ e _ => onAck_keeps now c₁ e) c).toActs

theorem release_keeps (m : Inbound) (now : Nat) : Step.Keeps s c (c.release m now) := by
  unfold release
  split
  · extract_lets deliver
    have hdeliver : ∀ (data : Option Bytes) (c₁ : Connection), c₁.traffic = c.traffic → c₁.writer = c.writer →
        Step.Keeps s c (deliver (data, c₁)) := by
      intro data c₁ ht hw
      simp only [deliver]
      split
      · exact Step.Keeps.after (.count _) fun _ => Step.Keeps.after (.emit _) fun _ => Step.Keeps.stay hw ht
      · exact Step.Keeps.stay hw ht
    -- the data is given to `hdeliver` by name: unifying it would unfold the join point
    split
    · simp only [pure_bind]
      exact hdeliver (some m.data) c rfl rfl
    · refine Step.Keeps.after .crash fun _ => ?_
      dsimp only
      split
      · rename_i d _
        simp only [pure_bind]
        refine hdeliver d _ ?_ ?_ <;> rfl
      · refine Step.Keeps.after (.emit _) fun _ => ?_
        simp only [pure_bind]
        refine hdeliver none _ ?_ ?_ <;> rfl
  · exact Step.Keeps.stay rfl rfl

theorem receive_ackEntry {w w' : ReceiveWindow} {h : Header} {p : Bytes} {now : Nat} {v : Verdict}
    {out : List Inbound}
    (hr : w.receive { kind := h.kind, seq := h.seq, fragment := h.fragment, data := p } now = .ok (v, out, w')) :
    w'.acks = w.acks ++ h.ackEntry ∧ ∀ e ∈ h.ackEntry, e.2 < Kind.count := by
  unfold ReceiveWindow.receive at hr
  unfold Header.ackEntry
  cases hk : h.kind with
  | control => simp [hk] at hr
  | unconnected => simp [hk] at hr
  | user method ch =>
    simp only [hk] at hr ⊢
    cases hs : h.seq with
    | none =>
      simp only [hs] at hr
      cases hr
      simp
    | some sq =>
      simp only [hs] at hr ⊢
      cases hb : (Kind.user method ch).byte with
      | error e => simp [hb, bind, Except.bind] at hr
      | ok raw =>
        have hraw : raw = (Kind.user method ch).toRaw := by
          unfold Kind.byte at hb
          split at hb <;> cases hb
          rfl
        subst hraw
        by_cases hge : (Kind.user method ch).toRaw ≥ Kind.count
        · simp [hb, hge, bind, Except.bind, throw, throwThe, MonadExceptOf.throw] at hr
        · simp only [hb, bind, Except.bind, hge, if_false] at hr
          refine ⟨?_, fun e he => ?_⟩
          · -- every verdict works on the window with the acknowledgement queued
            cases hrel : method.isReliable <;> simp only [hrel, if_true, if_false, Bool.false_eq_true] at hr ⊢ <;>
              (repeat' split at hr) <;> (try cases hr) <;> simp [ReceiveWindow.queueAck, ReceiveWindow.setExpected]
          · cases hrel : method.isReliable <;> simp [hrel] at he
            rw [he]
            omega

theorem onUser_takes {h : Header} {m : Delivery} {ch : Nat} (hd : c.status ≠ .disconnected)
    (hk : h.kind = .user m ch) (p : Bytes) (now : Nat) :
    Step.Takes s c (c.onUser h p now) (if c.takesIn h then h.ackEntry else []) [] := by
  unfold onUser
  extract_lets receive
  have hreceive : ∀ c₁ : Connection, c₁.status ≠ .disconnected → Step.Takes s c₁ (receive c₁) h.ackEntry [] := by
    intro c₁ h₁
    simp only [receive]
    refine Step.Under.bind .crash fun r hr => ?_
    obtain ⟨_, delivered, rw⟩ := r
    obtain ⟨hacks, hlt⟩ := receive_ackEntry hr
    have hin : (Act.intake h).Does s c₁ { c₁ with receiveWindow := rw } :=
      ⟨h₁, rfl, hlt, by simp [traffic, hacks]⟩
    refine (Step.Keeps.foldlM (fun c₂ x _ => release_keeps x now) _).acts.mono fun c' hc' => ?_
    obtain ⟨⟨as, hp, ho⟩, -⟩ := hc'
    refine ⟨.intake h :: as, .cons hin hp, ?_, ?_⟩
    · simp [Act.entries, Act.flatMap_entries_of_own ho]
    · simp [Act.enqueued, Act.flatMap_enqueued_of_own ho]
  split
  · rename_i hcon
    split
    · rename_i hacc
      have htakes : c.takesIn h = true := by simp_all [takesIn]
      rw [if_pos htakes]
      refine Step.Under.bind ((established_acts hd now).and (established_status now)) fun c₁ h₁ => ?_
      obtain ⟨⟨as₁, hp₁, ho₁⟩, hs₁⟩ := h₁
      refine (hreceive c₁ (by rw [hs₁]; decide)).mono fun c' h' => ?_
      obtain ⟨as, hp, he, hq⟩ := h'
      refine ⟨as₁ ++ as, hp₁.append hp, ?_, ?_⟩
      · rw [List.flatMap_append, Act.flatMap_entries_of_own ho₁, he, List.nil_append]
      · rw [List.flatMap_append, Act.flatMap_enqueued_of_own ho₁, List.nil_append, hq]
    · rename_i hacc
      have htakes : c.takesIn h = false := by simp_all [takesIn]
      rw [if_neg (by simp [htakes])]
      exact Step.Under.bind (.emit _) fun _ _ => .pure ⟨[], .nil _, rfl, rfl⟩
  · rename_i hcon
    have htakes : c.takesIn h = true := by simp_all [takesIn]
    rw [if_pos htakes]
    simp only [pure_bind]
    exact hreceive c hd

theorem onMessage_takes (h : Header) (p : Bytes) (now : Nat) :
    Step.Takes s c (c.onMessage h p now) (if c.takesIn h then h.ackEntry else []) [] := by
  unfold onMessage
  split
  · rename_i hd
    have htakes : c.takesIn h = false := by
      unfold takesIn
      split <;> simp [hd]
    rw [if_neg (by simp [htakes])]
    exact Step.Acts.stay.takes
  · rename_i hd
    split
    · rename_i hk
      have htakes : c.takesIn h = false := by simp [takesIn, hk]
      rw [if_neg (by simp [htakes])]
      refine Step.Acts.takes ?_
      split
      · refine Step.Under.bind (onControl_acts _ _ now) fun r hr => ?_
        split
        · exact .pure (hr _ rfl)
        · exact Step.Under.bind (.emit _) fun _ _ => Step.Acts.stay
      · exact Step.Acts.stay
    · rename_i hk
      have htakes : c.takesIn h = false := by simp [takesIn, hk]
      rw [if_neg (by simp [htakes])]
      exact Step.Acts.takes (Step.Under.bind (.emit _) fun _ _ => Step.Acts.stay)
    · rename_i m ch hk
      exact onUser_takes hd hk p now

end Connection
end ReliableUdp
