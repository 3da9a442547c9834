import ReliableUdp.Connection.Heartbeat
import ReliableUdp.Proofs.SendNumbering

/-!
# What a connection does to its send window

`Step.Yields x P` says every successful run of `x` gives a result satisfying `P`. Each
operation of a connection has one `Frame` lemma: the birth stays and the send window changes
only by moves, so a reachable connection's window is numbered as `Numbered.run` says.
-/

namespace ReliableUdp

namespace Step

/-- Every result a successful run of `x` gives satisfies `P`. -/
def Yields (x : Step α) (P : α → Prop) : Prop :=
  ∀ sh a sh', x.run sh = .ok (a, sh') → P a

namespace Yields

variable {α β γ : Type} {x : Step α} {P Q : α → Prop}

theorem pure {a : α} (h : P a) : Yields (Pure.pure a : Step α) P := by
  intro sh b sh' hr
  cases hr
  exact h

theorem bind {f : α → Step β} {R : β → Prop} (hx : Yields x Q) (hf : ∀ a, Q a → Yields (f a) R) :
    Yields (x >>= f) R := by
  intro sh b sh' hr
  rw [StateT.run_bind] at hr
  cases hx' : x.run sh with
  | error e =>
    rw [hx'] at hr
    cases hr
  | ok p =>
    rw [hx'] at hr
    exact hf p.1 (hx sh p.1 p.2 hx') p.2 b sh' hr

theorem any : Yields x fun _ => True := fun _ _ _ _ => True.intro

theorem mono (hx : Yields x P) (h : ∀ a, P a → Q a) : Yields x Q :=
  fun sh a sh' hr => h a (hx sh a sh' hr)

theorem crash {e : Except Crash α} : Yields (Step.crash e) fun a => e = .ok a := by
  intro sh a sh' hr
  cases e with
  | error err => cases hr
  | ok b =>
    cases hr
    rfl

theorem foldlM {f : β → γ → Step β} {R : β → Prop} (hf : ∀ b a, R b → Yields (f b a) R) :
    ∀ (l : List γ) (b : β), R b → Yields (l.foldlM f b) R
  | [], _, hb => pure hb
  | a :: l, b, hb => by
    rw [List.foldlM_cons]
    exact bind (hf b a hb) fun b' hb' => foldlM hf l b' hb'

end Yields
end Step

namespace SendWindow

@[simp] theorem keep_unreliable {w : SendWindow} {m : Queued} (h : m.kind.isReliable = false)
    (seq : Option Seq) (t : Nat) : w.keep m seq t = w := by
  unfold keep
  split
  · simp [h]
  · rfl

end SendWindow

namespace Connection

open SendWindow

/-- What a step keeps of the connection `c` it starts from: who started the connection and the
instant its handshake began. Its send window changes as `R` relates the old one to the new. -/
def Frame (R : SendWindow → SendWindow → Prop) (c c' : Connection) : Prop :=
  c'.initiator = c.initiator ∧ c'.handshake.started = c.handshake.started ∧
    R c.sendWindow c'.sendWindow

namespace Frame

variable {R : SendWindow → SendWindow → Prop} {c₀ c c₁ c' : Connection}

theorem window (h : Frame R c c') : R c.sendWindow c'.sendWindow := h.2.2

theorem refl (c : Connection) : Frame Reaches c c := ⟨rfl, rfl, .refl _⟩

theorem trans (h₁ : Frame Eq c c₁) (h₂ : Frame Eq c₁ c') : Frame Eq c c' :=
  ⟨h₂.1.trans h₁.1, h₂.2.1.trans h₁.2.1, h₁.2.2.trans h₂.2.2⟩

theorem follow (hc : Frame Reaches c₀ c) (h : Frame R c c') (hR : ∀ {w w'}, R w w' → Reaches w w') :
    Frame Reaches c₀ c' :=
  ⟨h.1.trans hc.1, h.2.1.trans hc.2.1, hc.2.2.trans (hR h.2.2)⟩

theorem keep (hc : Frame Reaches c₀ c) (h : Frame Eq c c') : Frame Reaches c₀ c' :=
  hc.follow h fun h => h ▸ .refl _

end Frame
end Connection

namespace Step.Yields

open Connection SendWindow

variable {γ : Type} {x : Step Connection} {R : SendWindow → SendWindow → Prop} {c₀ c : Connection}

theorem follow (hx : Yields x (Frame R c ·)) (hR : ∀ {w w'}, R w w' → Reaches w w')
    (hc : Frame Reaches c₀ c) : Yields x (Frame Reaches c₀ ·) :=
  hx.mono fun _ h => hc.follow h hR

theorem keep (hx : Yields x (Frame Eq c ·)) (hc : Frame Reaches c₀ c) :
    Yields x (Frame Reaches c₀ ·) :=
  hx.mono fun _ h => hc.keep h

theorem foldlM_keep {f : Connection → γ → Step Connection}
    (hf : ∀ c a, Yields (f c a) (Frame Eq c ·)) (l : List γ) (c : Connection) :
    Yields (l.foldlM f c) (Frame Eq c ·) :=
  foldlM (fun c₁ a (h₁ : Frame Eq c c₁) => (hf c₁ a).mono fun _ h => h₁.trans h) l c
    ⟨rfl, rfl, rfl⟩

end Step.Yields

namespace Connection

open Step SendWindow

variable {c₀ c : Connection} {now : Nat}

/-! ## Steps that leave the window as it is -/

theorem setStatus_frame (c : Connection) (s : Status) (reason : String) :
    Yields (c.setStatus s reason) (Frame Eq c ·) := by
  unfold setStatus
  split
  · exact .pure ⟨rfl, rfl, rfl⟩
  · exact .bind .any fun _ _ => .pure ⟨rfl, rfl, rfl⟩

theorem writeControl_frame (c : Connection) (k : Control) (p : Bytes) (now : Nat) :
    Yields (c.writeControl k p now) (Frame Eq c ·) := by
  unfold writeControl
  exact .bind .any fun _ _ => .bind .any fun _ _ => .pure ⟨rfl, rfl, rfl⟩

theorem writeUser_frame (c : Connection) (m : Queued) (seq : Option Seq) :
    Yields (c.writeUser m seq) (Frame Eq c ·) := by
  unfold writeUser
  exact .bind .any fun _ _ => .bind .any fun _ _ => .pure ⟨rfl, rfl, rfl⟩

theorem established_frame (c : Connection) (now : Nat) :
    Yields (c.established now) (Frame Eq c ·) :=
  setStatus_frame _ _ _

theorem sendConnectResponse_frame (c : Connection) (now : Nat) :
    Yields (c.sendConnectResponse now) (Frame Eq c ·) :=
  writeControl_frame _ _ _ _

theorem onRepeatedConnect_frame (c : Connection) (now : Nat) :
    Yields (c.onRepeatedConnect now) (Frame Eq c ·) := by
  unfold onRepeatedConnect
  split
  · exact sendConnectResponse_frame _ _
  · exact .pure ⟨rfl, rfl, rfl⟩

theorem onConnectResponse_frame (c : Connection) (hail : Bytes) (now : Nat) :
    Yields (c.onConnectResponse hail now) (Frame Eq c ·) := by
  unfold onConnectResponse
  split
  · exact .pure ⟨rfl, rfl, rfl⟩
  · split
    · refine .bind (writeControl_frame _ _ _ _) fun c₁ h₁ => .bind .any fun _ _ => ?_
      exact (established_frame _ _).mono fun _ h => h₁.trans h
    · exact writeControl_frame _ _ _ _
    · exact .pure ⟨rfl, rfl, rfl⟩

theorem onConnectionEstablished_frame (c : Connection) (now : Nat) :
    Yields (c.onConnectionEstablished now) (Frame Eq c ·) := by
  unfold onConnectionEstablished
  split
  · exact established_frame _ _
  · exact .pure ⟨rfl, rfl, rfl⟩

theorem onPong_frame (c : Connection) (id now : Nat) :
    Yields (c.onPong id now) (Frame Eq c ·) := by
  unfold onPong
  exact .bind .any fun _ _ => .pure ⟨rfl, rfl, rfl⟩

theorem release_frame (c : Connection) (m : Inbound) (now : Nat) :
    Yields (c.release m now) (Frame Eq c ·) := by
  unfold release
  split
  · simp only [pure_bind]
    split
    · exact .bind .any fun _ _ => .bind .any fun _ _ => .pure ⟨rfl, rfl, rfl⟩
    · refine .bind .any fun _ _ => ?_
      split
      · split
        · exact .bind .any fun _ _ => .bind .any fun _ _ => .pure ⟨rfl, rfl, rfl⟩
        · exact .pure ⟨rfl, rfl, rfl⟩
      · exact .bind .any fun _ _ => .pure ⟨rfl, rfl, rfl⟩
  · exact .pure ⟨rfl, rfl, rfl⟩

theorem onUser_frame (c : Connection) (h : Header) (payload : Bytes) (now : Nat) :
    Yields (c.onUser h payload now) (Frame Eq c ·) := by
  unfold onUser
  simp only [pure_bind]
  have releases := Yields.foldlM_keep fun c m => release_frame c m now
  split
  · split
    · refine .bind (established_frame _ _) fun c₁ h₁ => .bind .any fun _ _ => ?_
      exact (releases _ _).mono fun _ h => h₁.trans h
    · exact .bind .any fun _ _ => .pure ⟨rfl, rfl, rfl⟩
  · exact .bind .any fun _ _ => releases _ _

theorem flushAcks_frame (c : Connection) (now : Nat) :
    Yields (c.flushAcks now) (Frame Eq c ·) := by
  unfold flushAcks
  split
  · exact .pure ⟨rfl, rfl, rfl⟩
  · split
    exact Yields.foldlM_keep (fun c _ => writeControl_frame c _ _ _) _ _

/-! ## The moves -/

theorem sendUser_frame (c : Connection) (m : Queued) (now : Nat)
    (room : c.sendWindow.isFull m.kind = .ok false) :
    Yields (c.sendUser m now) (Frame (Move · (.send m) ·) c ·) := by
  unfold sendUser
  refine .bind .crash fun ⟨seq, w₁⟩ hassign => ?_
  refine .bind (writeUser_frame _ _ _) fun c₁ hc₁ => .bind .any fun _ _ => ?_
  obtain ⟨hi, hs, hw⟩ := hc₁
  dsimp only at hi hs hw ⊢
  -- a numbered reliable message is kept at the instant `store` computes; otherwise the
  -- window stays as `assign` left it
  split
  · rename_i s
    split
    · refine .bind .any fun _ _ => .bind .any fun _ _ => .bind .crash fun sw hsw => .pure ⟨hi, hs, ?_⟩
      obtain ⟨t, rfl⟩ := store_eq_keep hsw
      rw [← hw]
      exact .send room hassign t
    · rename_i hrel
      refine .bind .any fun _ _ => .pure ⟨hi, hs, ?_⟩
      have hm := Move.send room hassign now
      rwa [keep_unreliable (Bool.eq_false_iff.2 hrel), hw] at hm
  · refine .bind .any fun _ _ => .pure ⟨hi, hs, ?_⟩
    rw [← hw]
    exact .send room hassign now

theorem resendDue_frame (c : Connection) (now : Nat) :
    Yields (c.resendDue now) (Frame (fun w w' => ∃ rs rtt, Move w (.resend now rs rtt) w') c ·) := by
  unfold resendDue
  refine .bind .any fun s _ => .bind .crash fun rtt _ => .bind .crash fun ⟨pass, sw⟩ hsw => ?_
  refine .bind (Yields.foldlM_keep (fun c _ => writeUser_frame c _ _) _ _) fun c₁ ⟨hi, hs, hw⟩ => ?_
  have hm : Move c.sendWindow (.resend now s.resend rtt) c₁.sendWindow := hw ▸ .resend hsw
  -- counting, warning and releasing leave the connection as the resends wrote it
  dsimp only
  split
  all_goals (try refine .bind .any fun _ _ => ?_)
  all_goals split
  all_goals (try refine .bind .any fun _ _ => .bind .any fun _ _ => ?_)
  all_goals refine .bind .any fun _ _ => .pure ?_
  all_goals exact ⟨hi, hs, _, _, hm⟩

theorem onAck_frame (now : Nat) (c : Connection) (entry : Seq × Nat) :
    Yields (onAck now c entry) (Frame (Move · (.ack entry.1 entry.2) ·) c ·) := by
  unfold onAck
  have hm := Move.ack c.sendWindow entry.1 entry.2
  split
  · rename_i m sw heq
    rw [heq] at hm
    split
    · exact .bind .any fun _ _ => .pure ⟨rfl, rfl, hm⟩
    · exact .pure ⟨rfl, rfl, hm⟩

/-! ## Every operation reaches on by moves

Each lemma takes the connection `c₀` a run started from and the fact that the connection it
holds follows from `c₀`; the connection and the other arguments are read off the goal. -/

section Reaches

variable {reason : String} {k : Control} {p : Bytes}

theorem close_frame (hc : Frame Reaches c₀ c) :
    Yields (c.close reason) (Frame Reaches c₀ ·) := by
  unfold close
  split
  · exact .pure hc
  · refine .bind .any fun _ _ => .bind .any fun _ _ => ?_
    -- the window is cleared before the status changes
    have hclear : Frame Reaches c₀ { c with sendWindow := c.sendWindow.clear.2 } :=
      hc.follow ⟨rfl, rfl, Move.clear _⟩ Move.reaches
    exact (setStatus_frame _ _ _).keep hclear

theorem offer_frame {acc : Drain} {m : Queued} (hc : Frame Reaches c₀ acc.2.2) :
    Yields (offer now acc m) (Frame Reaches c₀ ·.2.2) := by
  obtain ⟨wrote, deferred, c⟩ := acc
  unfold offer
  refine .bind .any fun s _ => ?_
  split
  · exact .pure hc
  · refine .bind .crash fun full hfull => ?_
    split
    · exact .pure hc
    · rename_i hnot
      have room : c.sendWindow.isFull m.kind = .ok false := by
        rw [hfull, Bool.eq_false_iff.2 hnot]
      exact .bind ((sendUser_frame c m now room).follow Move.reaches hc) fun _ h => .pure h

theorem drainOne_frame {acc : Drain} {maxWhole : Nat} {m : Queued}
    (hc : Frame Reaches c₀ acc.2.2) :
    Yields (drainOne now maxWhole acc m) (Frame Reaches c₀ ·.2.2) := by
  obtain ⟨wrote, deferred, c⟩ := acc
  unfold drainOne
  refine .bind .any fun s _ => ?_
  split
  · exact .pure hc
  · split
    · refine .bind .any fun _ _ => .bind .any fun _ _ => .bind .any fun _ _ => ?_
      exact Yields.foldlM (fun _ _ h => offer_frame h) _ _ hc
    · exact offer_frame hc

theorem drainOutbound_frame (hc : Frame Reaches c₀ c) :
    Yields (c.drainOutbound now) (Frame Reaches c₀ ·.2) := by
  unfold drainOutbound
  refine .bind .any fun s _ => ?_
  refine .bind (Yields.foldlM (fun acc q (h : Frame Reaches c₀ acc.2.2) => ?_) _ _ hc)
    fun _ h => .pure h
  exact .bind (Yields.foldlM (fun _ _ h => drainOne_frame h) q _ h) fun _ h' => .pure h'

theorem ok_frame {ε : Type} (hc : Frame Reaches c₀ c) :
    ∀ c', (Except.ok c : Except ε Connection) = .ok c' → Frame Reaches c₀ c' := by
  rintro _ ⟨⟩
  exact hc

theorem decodeThen_frame {α : Type} {r : Reader α} {act : α → Step Connection}
    (hact : ∀ a, Yields (act a) (Frame Reaches c₀ ·)) :
    Yields (decodeThen p r act) (fun e => ∀ c', e = .ok c' → Frame Reaches c₀ c') := by
  unfold decodeThen
  split
  · exact .bind (hact _) fun _ h => .pure (ok_frame h)
  · exact .pure fun _ he => by cases he

theorem onControl_frame (hc : Frame Reaches c₀ c) :
    Yields (c.onControl k p now) (fun e => ∀ c', e = .ok c' → Frame Reaches c₀ c') := by
  unfold onControl
  cases k with
  | connect => exact decodeThen_frame fun _ => (onRepeatedConnect_frame _ _).keep hc
  | connectResponse => exact decodeThen_frame fun _ => (onConnectResponse_frame _ _ _).keep hc
  | connectionEstablished =>
    exact .bind ((onConnectionEstablished_frame _ _).keep hc) fun _ h => .pure (ok_frame h)
  | disconnect => exact decodeThen_frame fun _ => close_frame hc
  | keepAlive | discovery | discoveryResponse => exact .pure (ok_frame hc)
  | ping => exact decodeThen_frame fun _ => (writeControl_frame _ _ _ _).keep hc
  | pong => exact decodeThen_frame fun _ => (onPong_frame _ _ _).keep hc
  | acknowledge =>
    exact decodeThen_frame fun _ =>
      Yields.foldlM (fun _ _ h => (onAck_frame now _ _).follow Move.reaches h) _ c hc

theorem onMessage_frame {h : Header} (hc : Frame Reaches c₀ c) :
    Yields (c.onMessage h p now) (Frame Reaches c₀ ·) := by
  unfold onMessage
  split
  · exact .pure hc
  · split
    · split
      · refine .bind (onControl_frame hc) fun e he => ?_
        split
        · exact .pure (he _ rfl)
        · exact .bind .any fun _ _ => .pure hc
      · exact .pure hc
    · exact .bind .any fun _ _ => .pure hc
    · exact (onUser_frame _ _ _ _).keep hc

theorem applyDecision_frame {d : Decision} (hc : Frame Reaches c₀ c) :
    Yields (c.applyDecision d now) (Frame Reaches c₀ ·) := by
  unfold applyDecision
  dsimp only
  split
  · exact .pure hc
  · exact .bind ((writeControl_frame _ _ _ _).keep hc) fun _ h => close_frame h

theorem finishDisconnect_frame (hc : Frame Reaches c₀ c) :
    Yields (c.finishDisconnect reason now) (Frame Reaches c₀ ·) := by
  unfold finishDisconnect
  lift_lets
  intro finish
  -- Disconnect is written and the connection closed, whatever was sent before
  have hfinish : ∀ c₁ : Connection, Frame Reaches c₀ c₁ →
      Yields (finish c₁) (Frame Reaches c₀ ·) := by
    intro c₁ h₁
    simp only [finish]
    exact .bind .any fun _ _ => .bind ((writeControl_frame _ _ _ _).keep h₁) fun _ h₂ => close_frame h₂
  split
  case h_1 | h_2 =>
    exact .bind (drainOutbound_frame hc) fun ⟨_, _⟩ h₁ =>
      .bind ((flushAcks_frame _ _).keep h₁) hfinish
  · exact .bind (.pure hc) hfinish
  · exact close_frame hc
  · exact close_frame hc

theorem disconnect_frame (hc : Frame Reaches c₀ c) :
    Yields (c.disconnect reason now) (Frame Reaches c₀ ·) := by
  unfold disconnect
  refine .bind .any fun _ _ => ?_
  dsimp only
  split
  · split
    · exact .bind .any fun _ _ => (setStatus_frame _ _ _).keep hc
    · exact finishDisconnect_frame hc
  · exact finishDisconnect_frame hc
  · exact close_frame hc
  · exact .pure hc
  · exact .pure hc

theorem pollRequests_frame (hc : Frame Reaches c₀ c) :
    Yields (c.pollRequests now) (Frame Reaches c₀ ·) := by
  unfold pollRequests
  lift_lets
  intro decision
  have hdecision : ∀ c₁ : Connection, Frame Reaches c₀ c₁ →
      Yields (decision c₁) (Frame Reaches c₀ ·) := by
    intro c₁ h₁
    simp only [decision]
    split
    · exact applyDecision_frame h₁
    · exact .pure h₁
  split
  · exact .bind (disconnect_frame hc) hdecision
  · exact .bind (.pure hc) hdecision

theorem handshakeHeartbeat_frame (hc : Frame Reaches c₀ c) :
    Yields (c.handshakeHeartbeat now) (Frame Reaches c₀ ·) := by
  unfold handshakeHeartbeat
  refine .bind .any fun _ _ => ?_
  split
  · lift_lets
    intro due
    split
    · exact .pure hc
    · split
      · exact close_frame hc
      · exact (writeControl_frame _ _ _ _).keep hc
  · refine .bind .any fun _ _ => ?_
    split
    · exact close_frame hc
    · split
      · exact (sendConnectResponse_frame _ _).keep hc
      · exact .pure hc

theorem connectedHeartbeat_frame (hc : Frame Reaches c₀ c) :
    Yields (c.connectedHeartbeat now) (Frame Reaches c₀ ·) := by
  unfold connectedHeartbeat
  refine .bind .any fun _ _ => ?_
  split
  · exact close_frame hc
  · split
    refine .bind .any fun _ _ => ?_
    lift_lets
    intro c₁ keepAlive regular
    have hkeepAlive : ∀ c₂ : Connection, Frame Reaches c₀ c₂ →
        Yields (keepAlive c₂) (Frame Reaches c₀ ·) := by
      intro c₂ h₂
      simp only [keepAlive]
      split
      · exact (writeControl_frame _ _ _ _).keep h₂
      · exact .pure h₂
    -- resend, drain, then acknowledge when due, then keep alive
    have hregular : ∀ c₂ : Connection, Frame Reaches c₀ c₂ →
        Yields (regular c₂) (Frame Reaches c₀ ·) := by
      intro c₂ h₂
      simp only [regular]
      refine .bind ((resendDue_frame _ _).follow (fun ⟨_, _, hm⟩ => hm.reaches) h₂) fun _ h₃ =>
        .bind (drainOutbound_frame h₃) fun ⟨_, _⟩ h₄ => ?_
      dsimp only
      split
      · exact .bind ((flushAcks_frame _ _).keep h₄) hkeepAlive
      · exact .bind (.pure h₄) hkeepAlive
    split
    · split
      exact .bind ((writeControl_frame _ _ _ _).keep hc) hregular
    · exact .bind (.pure hc) hregular

theorem lingerHeartbeat_frame (hc : Frame Reaches c₀ c) :
    Yields (c.lingerHeartbeat now) (Frame Reaches c₀ ·) := by
  unfold lingerHeartbeat
  split
  · refine .bind ((resendDue_frame _ _).follow (fun ⟨_, _, hm⟩ => hm.reaches) hc) fun _ h₁ =>
      .bind (drainOutbound_frame h₁) fun ⟨_, _⟩ h₂ => ?_
    dsimp only
    split
    · exact finishDisconnect_frame h₂
    · exact (flushAcks_frame _ _).keep h₂
  · exact .pure hc

theorem heartbeat_frame (hc : Frame Reaches c₀ c) :
    Yields (c.heartbeat now) (Frame Reaches c₀ ·) := by
  unfold heartbeat
  refine .bind (pollRequests_frame hc) fun _ h₁ => ?_
  split
  · exact handshakeHeartbeat_frame h₁
  · exact connectedHeartbeat_frame h₁
  · exact lingerHeartbeat_frame h₁
  · exact .pure h₁
  · exact .pure h₁

end Reaches


/-! ## Created with an empty window -/

theorem create_window (h : Handle) (initiator : Bool) (hs : Handshake) (now : Nat) :
    Yields (create h initiator hs now) (fun c => c.sendWindow = { window := c.sendWindow.window }) := by
  unfold create
  refine .bind .any fun _ _ => (setStatus_frame _ _ _).mono fun _ h => ?_
  rw [← h.window]

theorem incoming_window (h : Handle) (hail : Bytes) (now : Nat) :
    Yields (incoming h hail now) (fun c => c.sendWindow = { window := c.sendWindow.window }) := by
  unfold incoming
  refine .bind .any fun _ _ => ?_
  dsimp only
  split
  · exact .bind .any fun _ _ => create_window _ _ _ _
  · exact create_window _ _ _ _

/-! ## Reachable connections -/

/-- The connections a peer can hold: made by a local connect or a remote Connect, then changed
by the periodic step, by messages from the remote endpoint, by sending and resending, by
disconnecting or closing, by taking the written datagrams, and by whatever the application
does to the handle, such as queueing messages. The shared state is arbitrary at every step. -/
inductive Reachable : Connection → Prop
  | outgoing {h : Handle} {hail : Bytes} {now : Nat} {sh sh' : Shared} {c : Connection} :
      (Connection.outgoing h hail now).run sh = .ok (c, sh') → Reachable c
  | incoming {h : Handle} {hail : Bytes} {now : Nat} {sh sh' : Shared} {c : Connection} :
      (Connection.incoming h hail now).run sh = .ok (c, sh') → Reachable c
  | heartbeat {c c' : Connection} {now : Nat} {sh sh' : Shared} :
      Reachable c → (c.heartbeat now).run sh = .ok (c', sh') → Reachable c'
  | onMessage {c c' : Connection} {h : Header} {payload : Bytes} {now : Nat} {sh sh' : Shared} :
      Reachable c → (c.onMessage h payload now).run sh = .ok (c', sh') → Reachable c'
  | drainOutbound {c c' : Connection} {wrote : Bool} {now : Nat} {sh sh' : Shared} :
      Reachable c → (c.drainOutbound now).run sh = .ok ((wrote, c'), sh') → Reachable c'
  | resendDue {c c' : Connection} {now : Nat} {sh sh' : Shared} :
      Reachable c → (c.resendDue now).run sh = .ok (c', sh') → Reachable c'
  | disconnect {c c' : Connection} {reason : String} {now : Nat} {sh sh' : Shared} :
      Reachable c → (c.disconnect reason now).run sh = .ok (c', sh') → Reachable c'
  | close {c c' : Connection} {reason : String} {sh sh' : Shared} :
      Reachable c → (c.close reason).run sh = .ok (c', sh') → Reachable c'
  | takeDatagrams {c : Connection} : Reachable c → Reachable c.takeDatagrams.2
  | handle {c : Connection} (f : Handle → Handle) :
      Reachable c → Reachable { c with handle := f c.handle }

theorem Reachable.fromEmpty (hc : c.Reachable) : c.sendWindow.FromEmpty := by
  -- creation leaves an empty window; every other operation reaches on from the one before
  induction hc with
  | outgoing hr => exact fromEmpty_of_eq (create_window _ _ _ _ _ _ _ hr)
  | incoming hr => exact fromEmpty_of_eq (incoming_window _ _ _ _ _ _ hr)
  | heartbeat _ hr ih => exact ih.reaches (heartbeat_frame (.refl _) _ _ _ hr).window
  | onMessage _ hr ih => exact ih.reaches (onMessage_frame (.refl _) _ _ _ hr).window
  | drainOutbound _ hr ih => exact ih.reaches (drainOutbound_frame (.refl _) _ _ _ hr).window
  | resendDue _ hr ih =>
    obtain ⟨_, _, hm⟩ := (resendDue_frame _ _ _ _ _ hr).window
    exact ih.reaches hm.reaches
  | disconnect _ hr ih => exact ih.reaches (disconnect_frame (.refl _) _ _ _ hr).window
  | close _ hr ih => exact ih.reaches (close_frame (.refl _) _ _ _ hr).window
  | takeDatagrams _ ih => exact ih
  | handle _ _ ih => exact ih

inductive Reach where
  | heartbeat (now : Nat)
  | message (h : Header) (payload : Bytes) (now : Nat)
  | drain (now : Nat)
  | resend (now : Nat)
  | disconnect (reason : String) (now : Nat)
  | close (reason : String)
  | take
  | handle (f : Handle → Handle)

namespace Reach

def run : Reach → Connection → Step Connection
  | .heartbeat now, c => c.heartbeat now
  | .message h payload now, c => c.onMessage h payload now
  | .drain now, c => c.drainOutbound now >>= fun r => pure r.2
  | .resend now, c => c.resendDue now
  | .disconnect reason now, c => c.disconnect reason now
  | .close reason, c => c.close reason
  | .take, c => pure c.takeDatagrams.2
  | .handle f, c => pure { c with handle := f c.handle }

def runAll : List Reach → Connection → Step Connection
  | [], c => pure c
  | r :: rs, c => r.run c >>= runAll rs

end Reach

theorem Reachable.run (hc : c.Reachable) (r : Reach) {c' : Connection} {sh sh' : Shared}
    (h : (r.run c).run sh = .ok (c', sh')) : c'.Reachable := by
  cases r with
  | heartbeat now => exact .heartbeat hc h
  | message hd payload now => exact .onMessage hc h
  | drain now =>
    obtain ⟨⟨wrote, c₁⟩, sh₁, hd, hp⟩ := Step.run_bind_ok h
    cases hp
    exact .drainOutbound hc hd
  | resend now => exact .resendDue hc h
  | disconnect reason now => exact .disconnect hc h
  | close reason => exact .close hc h
  | take =>
    cases h
    exact .takeDatagrams hc
  | handle f =>
    cases h
    exact .handle f hc

theorem Reachable.runAll {rs : List Reach} : ∀ {c c' : Connection} {sh sh' : Shared},
    c.Reachable → (Reach.runAll rs c).run sh = .ok (c', sh') → c'.Reachable := by
  induction rs with
  | nil =>
    intro c c' sh sh' hc h
    cases h
    exact hc
  | cons r rs ih =>
    intro c c' sh sh' hc h
    obtain ⟨c₁, sh₁, h₁, h₂⟩ := Step.run_bind_ok h
    exact ih (hc.run r h₁) h₂

theorem Reachable.of_outgoing {β : Type} (h : Handle) (hail : Bytes) (now : Nat) (sh : Shared)
    (rs : List Reach) (f : Connection → β) (v : β)
    (hv : ((Connection.outgoing h hail now >>= Reach.runAll rs).run sh).toOption.map (f ·.1) = some v) :
    ∃ c : Connection, c.Reachable ∧ f c = v := by
  cases hr : (Connection.outgoing h hail now >>= Reach.runAll rs).run sh with
  | error => rw [hr] at hv; cases hv
  | ok r =>
    obtain ⟨c₀, sh₀, h₀, h₁⟩ := Step.run_bind_ok hr
    rw [hr] at hv
    exact ⟨r.1, (Reachable.outgoing h₀).runAll h₁, Option.some.inj hv⟩

def acknowledgedInWindowTwo : List Reach :=
  let send (id : Nat) : Reach :=
    .handle (·.enqueue { payload := { id, data := [id.toUInt8] }, kind := .user .reliableOrdered 0 } .normal)
  [send 0, send 1, .drain 0,
    .message { kind := .control, control := some .acknowledge, payloadLen := 3 }
      (Payload.ack [(Seq.ofNat 1, 68)]) 1,
    send 2, .drain 2]

/-- Every stored message of a type carries the residue of its assignment index, the next number
is the residue of the count, and the distance from the next number back to a stored one is the
count of numbers given out since, when that is under half the space: at least one, and not
bounded by the window. Stored numbers are distinct while no stored message is the whole space
behind. -/
theorem stored_numbers_count_back (hc : c.Reachable) :
    c.sendWindow.FromEmpty ∧
    ∀ ops g, Run { window := c.sendWindow.window } {} ops c.sendWindow g →
      c.sendWindow.Numbered g ∧ ∀ r < Kind.count,
        (∀ i ∈ g.index r, g.assigned r < i + seqSpace / 2 →
          Seq.distance (c.sendWindow.nextSeq.getD r default) (Seq.ofNat i) =
            ((g.assigned r - i : Nat) : Int)) ∧
        ((∀ i ∈ g.index r, g.assigned r ≤ i + seqSpace) →
          ((c.sendWindow.storedOf r).map (·.seq)).Nodup) := by
  refine ⟨hc.fromEmpty, fun ops g hrun => ?_⟩
  have h := (Numbered.fresh _).run hrun
  exact ⟨h, fun r hr => ⟨fun i hi hhalf => h.distance_stored hr hi hhalf, h.nodup_stored⟩⟩

theorem stored_numbers_count_back_acknowledged :
    ∃ c : Connection, c.Reachable ∧ c.sendWindow.window = 2 ∧
    (c.sendWindow.storedOf 68).map (·.seq) = [Seq.ofNat 0, Seq.ofNat 2] ∧
    c.sendWindow.FromEmpty ∧
    ∀ ops g, Run { window := c.sendWindow.window } {} ops c.sendWindow g →
      c.sendWindow.Numbered g ∧ ∀ r < Kind.count,
        (∀ i ∈ g.index r, g.assigned r < i + seqSpace / 2 →
          Seq.distance (c.sendWindow.nextSeq.getD r default) (Seq.ofNat i) =
            ((g.assigned r - i : Nat) : Int)) ∧
        ((∀ i ∈ g.index r, g.assigned r ≤ i + seqSpace) →
          ((c.sendWindow.storedOf r).map (·.seq)).Nodup) := by
  obtain ⟨c, hc, hv⟩ := Reachable.of_outgoing (Handle.create 0 (.localhost 6000) 1200) [] 0
    (Shared.create { appId := "app", windowSize := 2 }) acknowledgedInWindowTwo
    (fun c => (c.sendWindow.window, (c.sendWindow.storedOf 68).map (·.seq)))
    (2, [Seq.ofNat 0, Seq.ofNat 2]) (by decide +kernel)
  simp only [Prod.mk.injEq] at hv
  exact ⟨c, hc, hv.1, hv.2, stored_numbers_count_back hc⟩

/-- A reachable connection with a window of two keeps a message three numbers behind the next
one: the window bounds how many messages are stored, not how far back they go. -/
theorem stored_three_behind_in_window_two :
    ∃ c : Connection, c.Reachable ∧ c.sendWindow.window = 2 ∧
    Seq.ofNat 0 ∈ (c.sendWindow.storedOf 68).map (·.seq) ∧
    Seq.distance (c.sendWindow.nextSeq.getD 68 default) (Seq.ofNat 0) = 3 := by
  obtain ⟨c, hc, hv⟩ := Reachable.of_outgoing (Handle.create 0 (.localhost 6000) 1200) [] 0
    (Shared.create { appId := "app", windowSize := 2 }) acknowledgedInWindowTwo
    (fun c => (c.sendWindow.window, (c.sendWindow.storedOf 68).map (·.seq),
      c.sendWindow.nextSeq.getD 68 default))
    (2, [Seq.ofNat 0, Seq.ofNat 2], Seq.ofNat 3) (by decide +kernel)
  simp only [Prod.mk.injEq] at hv
  obtain ⟨hw, hs, hn⟩ := hv
  refine ⟨c, hc, hw, by rw [hs]; exact List.mem_cons_self, ?_⟩
  rw [hn, Seq.distance_ofNat (by decide) (by decide)]
  rfl

end Connection
end ReliableUdp
