import ReliableUdp.Proofs.Lifecycle.Moves

/-!
# Every function of a connection moves it along a path

One `Leads` lemma per function of a connection, each from the lemmas of the functions it calls.
-/

namespace ReliableUdp

namespace Connection.Sound

variable {c c' : Connection}

/-- Soundness reads only the queues, the kept messages and the next fragment group. -/
theorem frame (hc : c.Sound) (hq : c'.handle.outbound = c.handle.outbound)
    (hs : c'.sendWindow.stored = c.sendWindow.stored) (hg : c'.nextGroup = c.nextGroup) :
    c'.Sound :=
  ⟨hq ▸ hc.queued, fun l hl => hc.stored l (hs ▸ hl), hg ▸ hc.group⟩

end Connection.Sound

namespace Leads

variable {α : Type} {κ : Cause} {c c₁ : Connection} {x : Step α} {out : α → Connection}
  {Q : α → Prop}

theorem rebase (h : Leads κ c₁ x out Q) (hf : c₁.face = c.face) (hw : c₁.writer = c.writer)
    (hs : c.Sound → c₁.Sound) : Leads κ c x out Q :=
  h.after (fun _ => .quiet hf hw rfl) hs

end Leads

namespace Step

variable {α : Type} {κ : Cause} {c : Connection}

theorem release_leads (ms : List Queued) : Leads κ c (Step.release ms) (fun _ => c) fun _ => True :=
  .silent fun _ _ _ hr => by cases hr; rfl

theorem count_leads (f : Stats → Stats) : Leads κ c (Step.count f) (fun _ => c) fun _ => True :=
  .silent fun _ _ _ hr => by cases hr; rfl

theorem withPool_leads {β : Type} (f : Pool → β × Pool) :
    Leads κ c (Step.withPool f) (fun _ => c) fun _ => True :=
  .silent fun _ _ _ hr => by cases hr; rfl

@[simp] theorem crash_ok_bind {β : Type} {a : α} {f : α → Step β} {sh : Shared} :
    (Step.crash (.ok a) >>= f).run sh = (f a).run sh := rfl

@[simp] theorem crash_error_bind {β : Type} {e : Crash} {f : α → Step β} {sh : Shared} :
    (Step.crash (.error e) >>= f).run sh = .error e := rfl

theorem markSent_leads (p : Payload) : Leads κ c (Step.markSent p) (fun _ => c) fun _ => True := by
  refine .bind (withPool_leads _) fun first _ => ?_
  split
  · exact count_leads _
  · exact .stay trivial rfl

end Step

/-! ## Chatter -/

theorem Released.pushIf_chatter (q : Released) (bit : Nat) {e : Event} (he : e.IsChatter) :
    (q.pushIf bit e).enabled = q.enabled ∧
      ∃ es, (q.pushIf bit e).events = q.events ++ es ∧ ∀ ev ∈ es, ev.IsChatter := by
  unfold Released.pushIf Released.push
  split
  · exact ⟨rfl, [e], rfl, by simpa using he⟩
  · exact ⟨rfl, [], by simp, by simp⟩

theorem Released.warning_chatter (t : String) (q : Released) :
    (q.warning t).enabled = q.enabled ∧
      ∃ es, (q.warning t).events = q.events ++ es ∧ ∀ ev ∈ es, ev.IsChatter :=
  q.pushIf_chatter _ trivial

theorem Released.debug_chatter (t : String) (q : Released) :
    (q.debug t).enabled = q.enabled ∧
      ∃ es, (q.debug t).events = q.events ++ es ∧ ∀ ev ∈ es, ev.IsChatter :=
  q.pushIf_chatter _ trivial

theorem Released.unconnected_chatter (sender : Endpoint) (d : Bytes) (q : Released) :
    (q.unconnected sender d).enabled = q.enabled ∧
      ∃ es, (q.unconnected sender d).events = q.events ++ es ∧ ∀ ev ∈ es, ev.IsChatter :=
  q.pushIf_chatter _ trivial

theorem emits_statusChanged (sh : Shared) (c : Connection) (s : Status) (r : String) :
    Emits sh (statusNote sh c s r)
      { sh with released := sh.released.statusChanged c.handle.id c.remote s r } := by
  unfold Emits statusNote Released.statusChanged Released.pushIf Released.push
  split <;> simp

namespace Connection

variable {κ : Cause} {c c' : Connection} {sh sh' : Shared} {now : Nat}

theorem status_eq (h : c'.face = c.face) : c'.status = c.status := congrArg Face.status h

/-! ## Publishing a status, writing a control message, closing -/

theorem setStatus_run {s : Status} {r : String} (hr : (c.setStatus s r).run sh = .ok (c', sh')) :
    (c.status = s ∧ c' = c ∧ sh' = sh) ∨
      (c.status ≠ s ∧ c' = { c with status := s, handle := { c.handle with status := s } } ∧
        sh' = { sh with released := sh.released.statusChanged c.handle.id c.remote s r }) := by
  unfold setStatus at hr
  split at hr
  · cases hr
    exact .inl ⟨by assumption, rfl, rfl⟩
  · cases hr
    exact .inr ⟨by assumption, rfl, rfl⟩

theorem setStatus_leads {s : Status} {r : String} (h : c.status ≠ s → c.face.Enters κ s r) :
    Leads κ c (c.setStatus s r) id fun c' => c'.status = s := by
  intro hc sh c' sh' hr
  rcases setStatus_run hr with ⟨he, rfl, rfl⟩ | ⟨hne, rfl, rfl⟩
  · exact ⟨he, hc, _, _, .refl⟩
  · exact ⟨rfl, hc.frame rfl rfl rfl, _, _, .single (.enter (h hne) rfl rfl (emits_statusChanged ..))⟩

theorem writeControl_run {k : Control} {p : Bytes} (hr : (c.writeControl k p now).run sh = .ok (c', sh')) :
    ∃ h w, Header.ofControl k p.length = .ok h ∧ c.writer.write h p = .ok w ∧
      c' = { c with writer := w, lastSent := now } ∧ sh' = sh := by
  unfold writeControl at hr
  cases hh : Header.ofControl k p.length with
  | error e => simp only [hh, Step.crash_error_bind, reduceCtorEq] at hr
  | ok h =>
    cases hw : c.writer.write h p with
    | error e => simp only [hh, hw, Step.crash_ok_bind, Step.crash_error_bind, reduceCtorEq] at hr
    | ok w =>
      simp only [hh, hw, Step.crash_ok_bind] at hr
      cases hr
      exact ⟨h, w, rfl, hw, rfl, rfl⟩

theorem writeControl_leads {k : Control} {p : Bytes} (hm : c.face.MayWrite k p) :
    Leads κ c (c.writeControl k p now) id fun c' => c'.face = c.face := by
  intro hc sh c' sh' hr
  obtain ⟨h, w, hh, hw, rfl, rfl⟩ := writeControl_run hr
  exact ⟨rfl, hc.frame rfl rfl rfl, _, _, .single (.control hm hh hw rfl ⟨rfl, by simp⟩)⟩

theorem close_run {r : String} (hr : (c.close r).run sh = .ok (c', sh')) :
    c'.face = c.face.close ∧ c'.writer = c.writer ∧ Emits sh (closeNote sh c r) sh' ∧
      (c.Sound → c'.Sound) := by
  unfold close at hr
  by_cases hd : c.status = .disconnected
  · rw [if_pos hd] at hr
    cases hr
    refine ⟨(Face.close_of_disconnected hd).symm, rfl, ?_, id⟩
    rw [closeNote, if_pos hd]
    exact ⟨rfl, by simp⟩
  · rw [if_neg hd] at hr
    obtain ⟨_, sh₁, h₁, hr⟩ := Step.run_bind_ok hr
    obtain ⟨_, sh₂, h₂, hr⟩ := Step.run_bind_ok hr
    cases h₁
    cases h₂
    rcases setStatus_run hr with ⟨he, -, -⟩ | ⟨-, rfl, rfl⟩
    · exact absurd he hd
    refine ⟨(Face.close_of_ne (f := c.face) hd).symm, rfl, ?_,
      fun hc => ⟨fun q hq => ?_, SendWindow.holds_clear _, hc.group⟩⟩
    · rw [closeNote, if_neg hd]
      exact emits_statusChanged ..
    · simp [Handle.outbound] at hq

theorem close_leads {r : String} (h : κ.Closes r) :
    Leads κ c (c.close r) id fun c' => c'.status = .disconnected := by
  intro hc sh c' sh' hr
  obtain ⟨hf, hw, he, hs⟩ := close_run hr
  refine ⟨(congrArg Face.status hf).trans (Face.close_status _), hs hc, ?_⟩
  by_cases hd : c.status = .disconnected
  · rw [closeNote, if_pos hd] at he
    exact ⟨_, _, .single (.quiet (hf.trans (Face.close_of_disconnected hd)) hw (by simp) he)⟩
  · rw [closeNote, if_neg hd] at he
    exact ⟨_, _, .single (.enter (show c.face.Enters κ .disconnected r from ⟨hd, h⟩)
      (hf.trans (Face.close_of_ne hd)) hw he)⟩

theorem closeWith_leads {reason : String} {n : Nat} (hs : c.status ≠ .disconnected) (h : κ.Closes reason) :
    Leads κ c (c.writeControl .disconnect (Wire.putText (Payload.disconnectReason reason n)) now >>=
      fun c => c.close reason) id fun c' => c'.status = .disconnected := by
  intro hc sh c' sh' hr
  obtain ⟨_, sh₁, h₁, h₂⟩ := Step.run_bind_ok hr
  obtain ⟨hd, w, hh, hw, rfl, rfl⟩ := writeControl_run h₁
  obtain ⟨hf, hw', he, hs'⟩ := close_run h₂
  rw [closeNote, if_neg hs] at he
  exact ⟨(congrArg Face.status hf).trans (Face.close_status _), hs' (hc.frame rfl rfl rfl), _, _,
    .single (.finish hs h hh (hw' ▸ hw) (hf.trans (Face.close_of_ne hs)) he)⟩

/-! ## The handshake -/

theorem sendConnectResponse_leads
    (hm : c.face.MayWrite .connectResponse (Wire.putBytes c.handshake.localHail)) :
    Leads κ c (c.sendConnectResponse now) id fun c' => c'.face = c.face := by
  unfold sendConnectResponse
  -- the retry time is not part of the face
  exact Leads.rebase (writeControl_leads hm :
    Leads κ { c with handshake := { c.handshake with lastAttempt := some now } } _ _ _)
    rfl rfl fun hc => hc.frame rfl rfl rfl

theorem established_leads (h : c.status ≠ .connected → c.face.Enters κ .connected "") :
    Leads κ c (c.established now) id fun c' => c'.status = .connected := by
  unfold established
  exact Leads.rebase (setStatus_leads h : Leads κ { c with latency := c.latency.onResponse now } _ _ _)
    rfl rfl fun hc => hc.frame rfl rfl rfl

/-! ## Application data: first sends, resends, draining the queues -/

theorem writeUser_leads {m : Queued} {seq : Option Seq} (hs : c.face.Sending) (hm : m.Sendable)
    (hseq : seq.isSome = m.kind.hasSeq) :
    Leads κ c (c.writeUser m seq) id fun c' => c'.face = c.face := by
  unfold writeUser
  refine .bind .crash fun h hh => .bind .crash fun w hw =>
    .pure rfl (fun hc => hc.frame rfl rfl rfl) fun sh => ⟨_, _, .single (.user hs ?_ ?_ hw rfl ⟨rfl, by simp⟩)⟩
  · exact Header.ofUser_wellFormed hm hseq hh
  · obtain ⟨⟨a, b, hk, -⟩, -⟩ := hm
    exact ⟨a, b, by rw [(Header.ofUser_eq hh).1, hk]⟩

theorem sendUser_leads {m : Queued} (hs : c.face.Sending) (hm : m.Sendable) :
    Leads κ c (c.sendUser m now) id fun c' => c'.face = c.face := by
  unfold sendUser
  refine .bind .crash fun ⟨seq, sw⟩ hassign => ?_
  refine .bind (.rebase (writeUser_leads hs hm (SendWindow.assign_isSome hm hassign)) rfl rfl
    fun hc => ⟨hc.queued, hc.stored.assign hassign, hc.group⟩) fun c₁ h₁ => ?_
  refine .bind (Step.markSent_leads _) fun _ _ => ?_
  dsimp only
  split
  · split
    · rename_i hrel
      refine .bind .settings fun _ _ => .bind .crash fun _ _ => .bind .crash fun sw' hsw => ?_
      obtain ⟨t, rfl⟩ := SendWindow.store_eq_keep hsw
      exact .keep h₁ rfl rfl fun hc => ⟨hc.queued, hc.stored.keep ⟨hm, hrel⟩ _ _, hc.group⟩
    · exact .bind (Step.release_leads _) fun _ _ => .keep h₁ rfl rfl fun hc => hc.frame rfl rfl rfl
  · exact .bind (Step.release_leads _) fun _ _ => .keep h₁ rfl rfl fun hc => hc.frame rfl rfl rfl

theorem resendDue_leads (hs : c.face.Sending) :
    Leads κ c (c.resendDue now) id fun c' => c'.face = c.face := by
  unfold resendDue
  refine .assume fun hc => ?_
  refine .bind .settings fun s _ => .bind .crash fun rtt _ => .bind .crash fun ⟨pass, sw⟩ hsw => ?_
  have hkept := hc.stored.resendDue hsw
  refine .bind ((Leads.foldlM_id (R := fun c₁ : Connection => c₁.face = c.face) pass.resent ?_
    { c with sendWindow := sw } rfl).rebase rfl rfl fun _ => ⟨hc.queued, hkept.1, hc.group⟩)
    fun c₁ h₁ => ?_
  · -- every resend writes a kept message, reliable and so numbered
    rintro c₁ ⟨m, seq⟩ hx h₁
    have hm := hkept.2 _ hx
    exact (writeUser_leads (h₁ ▸ hs) hm.1
      (show (some seq).isSome = m.kind.hasSeq from (Kind.hasSeq_of_isReliable hm.2).symm)).mono
      fun _ h => h.trans h₁
  dsimp only
  -- counting and warning leave the connection as the resends wrote it
  have hend : ∀ c₂ : Connection, c₂.face = c₁.face → c₂.writer = c₁.writer → c₂.handle = c₁.handle →
      c₂.sendWindow = c₁.sendWindow → c₂.nextGroup = c₁.nextGroup →
      Leads κ c₁ (Step.release pass.dropped >>= fun _ => pure c₂) id fun c' => c'.face = c.face :=
    fun c₂ hf hw hh hsw hg => .bind (Step.release_leads _) fun _ _ =>
      .keep (hf.trans h₁) hf hw fun hc =>
        hc.frame (congrArg Handle.outbound hh) (congrArg SendWindow.stored hsw) hg
  split
  · refine .bind (Step.count_leads _) fun _ _ => ?_
    split
    · exact .bind (Step.count_leads _) fun _ _ => .bind (.chatter (Released.warning_chatter _))
        fun _ _ => hend _ rfl rfl rfl rfl rfl
    · exact hend _ rfl rfl rfl rfl rfl
  · split
    · exact .bind (Step.count_leads _) fun _ _ => .bind (.chatter (Released.warning_chatter _))
        fun _ _ => hend _ rfl rfl rfl rfl rfl
    · exact hend _ rfl rfl rfl rfl rfl

def Drained (f : Face) (acc : Drain) : Prop := acc.2.2.face = f ∧ ∀ q ∈ acc.2.1, q.Sendable

theorem Drained.defer {f : Face} {wrote wrote' : Bool} {deferred : List Queued} {m : Queued}
    (h : Drained f (wrote, deferred, c)) (hm : m.Sendable) : Drained f (wrote', deferred ++ [m], c) := by
  refine ⟨h.1, fun q hq => ?_⟩
  rcases List.mem_append.1 hq with hq | hq
  · exact h.2 q hq
  · rw [List.mem_singleton.1 hq]
    exact hm

theorem offer_leads {f : Face} {acc : Drain} {m : Queued} (hs : f.Sending) (hm : m.Sendable)
    (hacc : Drained f acc) : Leads κ acc.2.2 (offer now acc m) (·.2.2) (Drained f) := by
  obtain ⟨wrote, deferred, c⟩ := acc
  unfold offer
  refine .bind .settings fun s _ => ?_
  split
  · exact .stay (hacc.defer hm) rfl
  · refine .bind .crash fun full _ => ?_
    split
    · exact .stay (hacc.defer hm) rfl
    · exact .bind (sendUser_leads (hacc.1 ▸ hs) hm) fun c' h' => .stay ⟨h'.trans hacc.1, hacc.2⟩ rfl

theorem drainOne_leads {f : Face} {maxWhole : Nat} {acc : Drain} {m : Queued} (hs : f.Sending)
    (hm : m.Sendable) (hacc : Drained f acc) :
    Leads κ acc.2.2 (drainOne now maxWhole acc m) (·.2.2) (Drained f) := by
  obtain ⟨wrote, deferred, c⟩ := acc
  unfold drainOne
  refine .assume fun hc => .bind .settings fun s _ => ?_
  split
  · exact .stay (hacc.defer hm) rfl
  · split
    · refine .pool fun sh frags pool hsplit => ?_
      have hfrags := Fragments.split_sendable hm hc.group hsplit
      -- the fragments go out one by one from a connection with the next group number
      have hnext : Drained f (wrote, deferred, { c with nextGroup := (c.nextGroup + 1) % 65536 }) := hacc
      exact (Leads.foldlM_last frags (fun b q hq hb => offer_leads hs (hfrags q hq) hb) _ hnext).rebase
        rfl rfl fun hc => ⟨hc.queued, hc.stored, Nat.mod_lt _ (by decide)⟩
    · exact offer_leads hs hm hacc

theorem drainOutbound_leads (hs : c.face.Sending) :
    Leads κ c (c.drainOutbound now) (·.2) fun r => r.2.face = c.face := by
  unfold drainOutbound
  refine .assume fun hc => .bind .settings fun s _ => ?_
  dsimp only
  have hqueues : ∀ q ∈ [c.handle.high, c.handle.normal, c.handle.low], ∀ m ∈ q, m.Sendable := by
    intro q hq m hm
    apply hc.queued
    simp only [List.mem_cons, List.mem_nil_iff, or_false] at hq
    rcases hq with rfl | rfl | rfl <;> simp [Handle.outbound, hm]
  -- the queues are drained in turn, each keeping the face; what each puts back is kept for it
  refine .bind ((Leads.foldlM_last (R := fun acc : Bool × List (List Queued) × Connection =>
      acc.2.2.face = c.face ∧ ∀ l ∈ acc.2.1, ∀ q ∈ l, q.Sendable) _ ?_ _ ?_).rebase rfl rfl ?_)
    fun r hr => ?_
  · intro acc q hq hacc
    refine .bind (Leads.foldlM_last q (fun b m hm hb => drainOne_leads hs (hqueues q hq m hm) hb)
      (acc.1, [], acc.2.2) ⟨hacc.1, by simp⟩) fun r h => .stay ⟨h.1, fun l hl m hm => ?_⟩ rfl
    rcases List.mem_append.1 hl with hl | hl
    · exact hacc.2 l hl m hm
    · rw [List.mem_singleton.1 hl] at hm
      exact h.2 m hm
  · exact ⟨rfl, by simp⟩
  · exact fun hc => ⟨by simp [Handle.outbound], hc.stored, hc.group⟩
  · -- the queues are what the drains put back
    have hkept : ∀ i, ∀ m ∈ r.2.1.getD i [], m.Sendable := by
      intro i m hm
      rw [List.getD_eq_getElem?_getD] at hm
      cases hi : r.2.1[i]? with
      | none => simp [hi] at hm
      | some l =>
        rw [hi, Option.getD_some] at hm
        exact hr.2 l (List.mem_of_getElem? hi) m hm
    refine .keep hr.1 rfl rfl fun hc => ⟨fun m hm => ?_, hc.stored, hc.group⟩
    simp only [Handle.outbound, List.mem_append] at hm
    rcases hm with (hm | hm) | hm
    · exact hkept 0 m hm
    · exact hkept 1 m hm
    · exact hkept 2 m hm

theorem flushAcks_leads (hs : c.status ≠ .disconnected) :
    Leads κ c (c.flushAcks now) id fun c' => c'.face = c.face := by
  unfold flushAcks
  split
  · exact .stay rfl rfl
  · split
    rename_i rw _
    dsimp only
    refine Leads.foldlM_id (R := fun c₁ : Connection => c₁.face = c.face) _
      (fun c₁ part _ h₁ => (writeControl_leads ?_).mono fun _ h => h.trans h₁)
      { c with receiveWindow := rw } rfl |>.rebase rfl rfl fun hc => hc.frame rfl rfl rfl
    rw [h₁]
    exact hs

theorem finishDisconnect_leads {reason : String} (h : κ.Closes reason) :
    Leads κ c (c.finishDisconnect reason now) id fun c' => c'.status = .disconnected := by
  unfold finishDisconnect
  lift_lets
  intro finish
  -- Disconnect goes out from any status but `disconnected`, then the connection closes
  have hfinish : ∀ c₁ : Connection, c₁.status ≠ .disconnected →
      Leads κ c₁ (finish c₁) id fun c' => c'.status = .disconnected := by
    intro c₁ h₁
    exact .bind .settings fun _ _ => closeWith_leads h₁ h
  split
  · rename_i hst
    refine .bind (drainOutbound_leads (.inl hst)) fun ⟨_, c₁⟩ h₁ => ?_
    have hs₁ : c₁.status = .connected := (status_eq h₁).trans hst
    exact .bind (flushAcks_leads (by rw [hs₁]; decide)) fun c₂ h₂ =>
      hfinish c₂ (by rw [status_eq h₂, hs₁]; decide)
  · rename_i hst
    refine .bind (drainOutbound_leads (.inr hst)) fun ⟨_, c₁⟩ h₁ => ?_
    have hs₁ : c₁.status = .disconnecting := (status_eq h₁).trans hst
    exact .bind (flushAcks_leads (by rw [hs₁]; decide)) fun c₂ h₂ =>
      hfinish c₂ (by rw [status_eq h₂, hs₁]; decide)
  · rename_i hst
    exact .bind (.stay (Q := fun c₁ => c₁ = c) rfl rfl) fun c₁ h₁ =>
      hfinish c₁ (by rw [h₁, hst]; decide)
  · exact close_leads h
  · exact close_leads h

theorem disconnect_leads {reason : String} (hl : κ.Lingers reason) (h : κ.Closes reason) :
    Leads κ c (c.disconnect reason now) id fun _ => True := by
  unfold disconnect
  refine .bind .settings fun s _ => ?_
  dsimp only
  split
  · rename_i hst
    split
    · refine .bind .crash fun _ _ => ?_
      refine Leads.mono (Leads.rebase (setStatus_leads fun _ => ?_) rfl rfl fun hc => hc.frame rfl rfl rfl)
        fun _ _ => trivial
      exact ⟨hst, hl⟩
    · exact (finishDisconnect_leads h).mono fun _ _ => trivial
  · exact (finishDisconnect_leads h).mono fun _ _ => trivial
  · exact (close_leads h).mono fun _ _ => trivial
  · exact .stay trivial rfl
  · exact .stay trivial rfl

/-! ## The application's decision -/

theorem applyDecision_leads {d : Decision} (ha : c.face.awaiting = true) (hd : c.face.decision = some d) :
    Leads .tick c ({ c with handle := { c.handle with decision := none } }.applyDecision d now) id
      fun c' => ∀ r, d = .deny r → c'.status = .disconnected := by
  unfold applyDecision
  dsimp only
  split
  · exact .pure (fun _ h => by cases h) (fun hc => hc.frame rfl rfl rfl)
      fun _ => ⟨_, _, .single (.approve rfl ha hd rfl rfl ⟨rfl, by simp⟩)⟩
  · intro hc sh c' sh' hr
    obtain ⟨_, sh₁, h₁, h₂⟩ := Step.run_bind_ok hr
    obtain ⟨h, w, hh, hw, rfl, rfl⟩ := writeControl_run h₁
    obtain ⟨hf, hw', he, hs⟩ := close_run h₂
    refine ⟨fun _ _ => (congrArg Face.status hf).trans (Face.close_status _), hs (hc.frame rfl rfl rfl),
      _, _, .single (.refuse rfl ha hd hh (hw' ▸ hw) hf he)⟩

theorem pollRequests_leads :
    Leads .tick c (c.pollRequests now) id fun c' =>
      c.face.awaiting = true → (∃ r, c.face.decision = some (.deny r)) → c'.status = .disconnected := by
  unfold pollRequests
  lift_lets
  intro decide
  -- a decision is applied exactly when the connection awaits one and one is pending
  have hdecide : ∀ c₁ : Connection, c₁.face.awaiting = c.face.awaiting →
      c₁.face.decision = c.face.decision → Leads .tick c₁ (decide c₁) id fun c' =>
        c.face.awaiting = true → (∃ r, c.face.decision = some (.deny r)) → c'.status = .disconnected := by
    intro c₁ ha hd
    simp only [decide]
    split
    · rename_i d ha₁ hd₁
      exact (applyDecision_leads ha₁ hd₁).mono fun c' h _ ⟨r, hr⟩ =>
        h r (Option.some.inj (hd₁.symm.trans (hd.trans hr)))
    · rename_i hno
      refine .stay (fun ha₀ ⟨r, hr⟩ => ?_) rfl
      exact absurd (hd.trans hr) (hno _ (ha.trans ha₀))
  split
  · rename_i reason _
    refine .bind (((disconnect_leads (κ := .call reason) rfl rfl).lift.mono fun _ h => h.2).rebase rfl rfl
      fun hc => hc.frame rfl rfl rfl) fun c₁ h₁ => hdecide c₁ h₁.1 h₁.2
  · exact .bind (.stay (Q := fun c₁ => c₁ = c) rfl rfl) fun c₁ h₁ => hdecide c₁ (by rw [h₁]) (by rw [h₁])

/-! ## The periodic step -/

theorem handshakeHeartbeat_leads (hst : c.status = .connecting) :
    Leads .tick c (c.handshakeHeartbeat now) id fun _ => True := by
  unfold handshakeHeartbeat
  refine .bind .settings fun s _ => ?_
  split
  · rename_i hinit
    lift_lets
    intro due
    split
    · exact .stay trivial rfl
    · split
      · exact (close_leads (κ := .tick) trivial).mono fun _ _ => trivial
      · refine Leads.mono (Leads.rebase (writeControl_leads ?_) rfl rfl fun hc => hc.frame rfl rfl rfl)
          fun _ _ => trivial
        exact ⟨hinit, hst, _, rfl⟩
  · rename_i hinit
    refine .bind .crash fun _ _ => ?_
    split
    · exact (close_leads (κ := .tick) trivial).mono fun _ _ => trivial
    · split
      · rename_i hfree
        simp only [Bool.and_eq_true, Bool.not_eq_true'] at hfree
        -- the acceptor starts responding, then sends its response
        refine Leads.after (Leads.mono (sendConnectResponse_leads ?_) fun _ _ => trivial)
          (fun _ => .single (.respond (Bool.eq_false_iff.2 hinit) hst hfree.1 hfree.2 rfl rfl
            ⟨rfl, by simp⟩)) fun hc => hc.frame rfl rfl rfl
        exact ⟨Bool.eq_false_iff.2 hinit, hst, rfl, rfl⟩
      · exact .stay trivial rfl

theorem connectedHeartbeat_leads (hst : c.status = .connected) :
    Leads .tick c (c.connectedHeartbeat now) id fun _ => True := by
  unfold connectedHeartbeat
  refine .bind .settings fun s _ => ?_
  split
  · exact (close_leads (κ := .tick) trivial).mono fun _ _ => trivial
  split
  refine .bind (Leads.forIn_stay fun _ _ => .bind (.chatter (Released.debug_chatter _)) fun _ _ =>
    .stay trivial rfl) fun _ _ => ?_
  lift_lets
  intro c₀ keepAlive regular
  -- every stage keeps the face, so the connection stays connected to the end
  have hkeepAlive : ∀ c₁ : Connection, c₁.face = c.face →
      Leads .tick c₁ (keepAlive c₁) id fun _ => True := by
    intro c₁ h₁
    simp only [keepAlive]
    split
    · refine (writeControl_leads ?_).mono fun _ _ => trivial
      show c₁.status ≠ .disconnected
      rw [status_eq h₁, hst]
      decide
    · exact .stay trivial rfl
  have hregular : ∀ c₁ : Connection, c₁.face = c.face →
      Leads .tick c₁ (regular c₁) id fun _ => True := by
    intro c₁ h₁
    have hs₁ : c₁.face.Sending := .inl ((status_eq h₁).trans hst)
    simp only [regular]
    refine .bind (resendDue_leads hs₁) fun c₂ h₂ =>
      .bind (drainOutbound_leads (h₂ ▸ hs₁)) fun ⟨_, c₃⟩ h₃ => ?_
    have h₃ : c₃.face = c.face := h₃.trans (h₂.trans h₁)
    dsimp only
    split
    · refine .bind (flushAcks_leads ?_) fun c₄ h₄ => hkeepAlive c₄ (h₄.trans h₃)
      rw [status_eq h₃, hst]
      decide
    · exact hkeepAlive c₃ h₃
  split
  · split
    refine .bind (Leads.rebase (writeControl_leads ?_ : Leads .tick { c₀ with latency := _ } _ _ _)
      rfl rfl fun hc => hc.frame rfl rfl rfl) hregular
    show c.status ≠ .disconnected
    rw [hst]
    decide
  · exact .bind (.keep (Q := fun c₁ => c₁.face = c.face) rfl rfl rfl fun hc => hc.frame rfl rfl rfl)
      hregular

theorem lingerHeartbeat_leads (hst : c.status = .disconnecting) :
    Leads .tick c (c.lingerHeartbeat now) id fun _ => True := by
  unfold lingerHeartbeat
  split
  · have hs : c.face.Sending := .inr hst
    refine .bind (resendDue_leads hs) fun c₁ h₁ =>
      .bind (drainOutbound_leads (h₁ ▸ hs)) fun ⟨_, c₂⟩ h₂ => ?_
    dsimp only
    split
    · exact (finishDisconnect_leads (κ := .tick) trivial).mono fun _ _ => trivial
    · refine (flushAcks_leads ?_).mono fun _ _ => trivial
      rw [status_eq (h₂.trans h₁), hst]
      decide
  · exact .stay trivial rfl

/-- The periodic step: requests first, then what the status calls for. A denial pending while
the connection awaits approval leaves it disconnected. -/
theorem heartbeat_leads :
    Leads .tick c (c.heartbeat now) id fun c' =>
      c.face.awaiting = true → (∃ r, c.face.decision = some (.deny r)) → c'.status = .disconnected := by
  unfold heartbeat
  refine .bind pollRequests_leads fun c₁ h₁ => ?_
  -- after a denial the connection is disconnected, and the step leaves it as it is
  split
  · rename_i hst
    exact (handshakeHeartbeat_leads hst).mono fun _ _ ha hd => absurd (h₁ ha hd) (by rw [hst]; decide)
  · rename_i hst
    exact (connectedHeartbeat_leads hst).mono fun _ _ ha hd => absurd (h₁ ha hd) (by rw [hst]; decide)
  · rename_i hst
    exact (lingerHeartbeat_leads hst).mono fun _ _ ha hd => absurd (h₁ ha hd) (by rw [hst]; decide)
  · exact .stay h₁ rfl
  · exact .stay h₁ rfl

/-! ## Received messages -/

theorem onRepeatedConnect_leads : Leads κ c (c.onRepeatedConnect now) id fun _ => True := by
  unfold onRepeatedConnect
  split
  · rename_i hg
    simp only [Bool.and_eq_true, Bool.not_eq_true', decide_eq_true_eq] at hg
    exact (sendConnectResponse_leads ⟨hg.1.1, hg.1.2, hg.2, rfl⟩).mono fun _ _ => trivial
  · exact .stay trivial rfl

/-- The initiator takes the first ConnectResponse: it keeps the hail, confirms and is connected;
a later one is confirmed again. -/
theorem onConnectResponse_leads {hail : Bytes} (hr : κ.Responds hail) :
    Leads κ c (c.onConnectResponse hail now) id fun _ => True := by
  unfold onConnectResponse
  split
  · exact .stay trivial rfl
  rename_i hinit
  have hinit : c.initiator = true := by simpa using hinit
  split
  · rename_i hst
    intro hc sh c' sh' hrun
    obtain ⟨_, sh₁, h₁, h₂⟩ := Step.run_bind_ok hrun
    obtain ⟨h, w, hh, hw, rfl, rfl⟩ := writeControl_run h₁
    obtain ⟨rtt, sh₂, h₃, h₄⟩ := Step.run_bind_ok h₂
    cases hl : (({ c with handle := { c.handle with remoteHail := hail } }.latency).seed
      (now - c.handshake.started)).avgRtt with
    | error e => simp [hl, Step.crash] at h₃
    | ok r =>
      simp only [hl, Step.crash, StateT.run_lift, pure, Except.pure] at h₃
      obtain ⟨rfl, rfl⟩ := h₃
      unfold established at h₄
      rcases setStatus_run h₄ with ⟨he, -, -⟩ | ⟨-, rfl, rfl⟩
      · exact absurd (he.symm.trans hst) (by decide)
      exact ⟨trivial, hc.frame rfl rfl rfl, _, _,
        .single (.confirm hinit hst hr hh hw rfl (emits_statusChanged ..))⟩
  · rename_i hst
    exact (writeControl_leads (k := .connectionEstablished) (p := []) ⟨hinit, hst⟩).mono fun _ _ => trivial
  · exact .stay trivial rfl

theorem onConnectionEstablished_leads (hκ : κ.Confirms) :
    Leads κ c (c.onConnectionEstablished now) id fun _ => True := by
  unfold onConnectionEstablished
  split
  · rename_i hg
    simp only [Bool.and_eq_true, Bool.not_eq_true', decide_eq_true_eq] at hg
    exact (established_leads fun _ => ⟨hg.1.2, hg.1.1, hg.2, hκ, rfl⟩).mono fun _ _ => trivial
  · exact .stay trivial rfl

theorem onPong_leads {n : Nat} : Leads κ c (c.onPong n now) id fun _ => True := by
  unfold onPong
  exact .bind .crash fun _ _ => .keep trivial rfl rfl fun hc => hc.frame rfl rfl rfl

theorem onAck_leads {entry : Seq × Nat} : Leads κ c (onAck now c entry) id fun c' => c'.face = c.face := by
  unfold onAck
  refine .assume fun hc => ?_
  split
  rename_i m sw hack
  have hsw := hc.stored.ack entry.1 entry.2
  rw [hack] at hsw
  split
  · exact .bind (Step.release_leads _) fun _ _ => .keep rfl rfl rfl fun hc => ⟨hc.queued, hsw, hc.group⟩
  · exact .keep rfl rfl rfl fun hc => ⟨hc.queued, hsw, hc.group⟩

theorem decodeThen_leads {α : Type} {p : Bytes} {r : Reader α} {act : α → Step Connection}
    (h : ∀ a rest, r p = .ok (a, rest) → Leads κ c (act a) id fun _ => True) :
    Leads κ c (decodeThen p r act) (fun x => x.toOption.getD c) fun _ => True := by
  unfold decodeThen
  split
  · rename_i a rest hr
    exact .bind (h a rest hr) fun _ _ => .stay trivial rfl
  · exact .stay trivial rfl

theorem onControl_leads {h : Header} {p : Bytes} {k : Control} (hk : h.kind = .control)
    (hc : h.control = some k) (hs : c.status ≠ .disconnected) :
    Leads (.message h p) c (c.onControl k p now) (fun x => x.toOption.getD c) fun _ => True := by
  unfold onControl
  cases k with
  | connect => exact decodeThen_leads fun _ _ _ => onRepeatedConnect_leads
  | connectResponse =>
    exact decodeThen_leads fun _ rest hr => onConnectResponse_leads ⟨hk, hc, rest, hr⟩
  | connectionEstablished =>
    exact .bind (onConnectionEstablished_leads (.inl ⟨hk, hc⟩)) fun _ _ => .stay trivial rfl
  | disconnect =>
    exact decodeThen_leads fun reason rest hr =>
      (close_leads (κ := .message h p) (r := reason) ⟨hk, hc, rest, hr⟩).mono fun _ _ => trivial
  | keepAlive | discovery | discoveryResponse => exact .stay trivial rfl
  | ping =>
    exact decodeThen_leads fun n _ _ =>
      (writeControl_leads (k := .pong) (p := Payload.ping n) hs).mono fun _ _ => trivial
  | pong => exact decodeThen_leads fun _ _ _ => onPong_leads
  | acknowledge =>
    exact decodeThen_leads fun entries _ _ =>
      (Leads.foldlM_id (R := fun c₁ : Connection => c₁.face = c.face) entries
        (fun _ _ _ h₁ => onAck_leads.mono fun _ h => h.trans h₁) c rfl).mono fun _ _ => trivial

theorem data_leads {m : Delivery} {ch : Nat} {d : Bytes} (hs : c.face.status ≠ .connecting)
    (hd : c.face.status ≠ .disconnected) :
    Leads κ c (Step.emit (·.data c.handle.id c.remote m ch d)) (fun _ => c) fun _ => True := by
  intro hc sh _ sh' hr
  cases hr
  exact ⟨trivial, hc, _, _, .single (.data hs hd rfl rfl ⟨rfl, rfl⟩)⟩

theorem release_leads {m : Inbound} (hs : c.face.status ≠ .connecting) (hd : c.face.status ≠ .disconnected) :
    Leads κ c (c.release m now) id fun c' => c'.face = c.face := by
  unfold release
  split
  · simp only [pure_bind]
    split
    · exact .bind (Step.count_leads _) fun _ _ => .bind (data_leads hs hd) fun _ _ => .stay rfl rfl
    · refine .bind .crash fun _ _ => ?_
      -- the assembler is not part of the face
      have hkeep : ∀ c₁ : Connection, c₁.face = c.face → c₁.writer = c.writer →
          c₁.handle = c.handle → c₁.sendWindow = c.sendWindow → c₁.nextGroup = c.nextGroup →
          Leads κ c (pure c₁ : Step Connection) id fun c' => c'.face = c.face :=
        fun c₁ hf hw hh hsw hg => .keep hf hf hw fun hc =>
          hc.frame (congrArg Handle.outbound hh) (congrArg SendWindow.stored hsw) hg
      split
      · split
        · exact .bind (Step.count_leads _) fun _ _ => .bind (data_leads hs hd) fun _ _ =>
            hkeep _ rfl rfl rfl rfl rfl
        · exact hkeep _ rfl rfl rfl rfl rfl
      · exact .bind (.chatter (Released.warning_chatter _)) fun _ _ => hkeep _ rfl rfl rfl rfl rfl
  · exact .stay rfl rfl

theorem deliver_leads {rw : ReceiveWindow} (hs : c.status ≠ .connecting) (hd : c.status ≠ .disconnected)
    (ms : List Inbound) :
    Leads κ c (ms.foldlM (fun c m => c.release m now) { c with receiveWindow := rw }) id fun _ => True :=
  Leads.rebase ((Leads.foldlM_id (R := fun c₁ : Connection => c₁.face = c.face) ms
    (fun c₁ m _ h₁ => (release_leads (h₁ ▸ hs) (h₁ ▸ hd) : Leads κ c₁ (c₁.release m now) id _).mono
      fun _ h => h.trans h₁)
    { c with receiveWindow := rw } rfl).mono fun _ _ => trivial) rfl rfl fun hc => hc.frame rfl rfl rfl

theorem onUser_leads {h : Header} {p : Bytes} (hκ : κ.Confirms) (hd : c.status ≠ .disconnected) :
    Leads κ c (c.onUser h p now) id fun _ => True := by
  unfold onUser
  simp only [pure_bind]
  split
  · rename_i hst
    split
    · rename_i hg
      simp only [Bool.and_eq_true, Bool.not_eq_true'] at hg
      refine .bind (established_leads fun _ => ⟨hst, hg.1, hg.2, hκ, rfl⟩) fun c₁ h₁ =>
        .bind .crash fun _ _ => ?_
      exact deliver_leads (show c₁.status ≠ _ by rw [h₁]; decide) (show c₁.status ≠ _ by rw [h₁]; decide) _
    · exact .bind (.chatter (Released.debug_chatter _)) fun _ _ => .stay trivial rfl
  · rename_i hst
    exact .bind .crash fun _ _ => deliver_leads hst hd _

theorem onMessage_leads {h : Header} {p : Bytes} :
    Leads (.message h p) c (c.onMessage h p now) id fun _ => True := by
  unfold onMessage
  split
  · exact .stay trivial rfl
  rename_i hd
  split
  · rename_i hk
    split
    · rename_i k hc
      refine .bind (onControl_leads hk hc hd) fun e _ => ?_
      cases e with
      | ok c' => exact .stay trivial rfl
      | error e => exact .bind (.chatter (Released.warning_chatter _)) fun _ _ => .stay trivial rfl
    · exact .stay trivial rfl
  · exact .bind (.chatter (Released.unconnected_chatter _ _)) fun _ _ => .stay trivial rfl
  · rename_i m ch hk
    exact onUser_leads (.inr ⟨m, ch, hk⟩) hd

end Connection

end ReliableUdp
