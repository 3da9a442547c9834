import ReliableUdp.Proofs.Lifecycle.Runs

/-!
# The order of statuses

Over every run the status only goes up, the handle shows it, and the status events name the
statuses entered, in order and each once, each turn's with a reason its cause gives.
-/

namespace ReliableUdp

variable {o : Op} {s s' : Snap}

namespace Op.Turn

theorem shown (ht : o.Turn s s') (hs : s.conn.Sound) (hsh : s.conn.handle.status = s.conn.status) :
    s'.conn.handle.status = s'.conn.status := by
  obtain ⟨f, hf, hface⟩ := ht.face_trace hs
  have hg : f.shown = f.status := Face.holds_of_trace (fun _ _ h => h.shown) hf hsh
  have h₁ : s'.conn.face.shown = f.shown := by rw [hface]
  have h₂ : s'.conn.face.status = f.status := by rw [hface]
  exact h₁.trans (hg.trans h₂.symm)

theorem climb (ht : o.Turn s s') (hs : s.conn.Sound) :
    s'.shared.released.enabled = s.shared.released.enabled ∧
      ∃ E, s'.shared.released.events = s.shared.released.events ++ E ∧
        (Notify.has s.shared.released.enabled Notify.status = true →
          Climb o.cause.Explains s.conn.status (notes E) s'.conn.status) := by
  rcases (ht.cases hs).2 with ⟨-, E, M, hp, -⟩ | ⟨-, hf, hrel, -⟩
  · exact ⟨hp.emits.1, E, hp.emits.2, hp.climb⟩
  · -- a request or a take releases nothing and keeps the status
    have hst : s'.conn.status = s.conn.status := congrArg Face.status hf
    refine ⟨by rw [hrel], [], by rw [hrel, List.append_nil], fun _ => ?_⟩
    rw [hst]
    exact .refl _

end Op.Turn

/-- What a run keeps of its statuses: the handle shows the status, the kinds of events kept
are those of the start, and when status events are kept, those released since the start name
the statuses entered from none, in order and each once. -/
structure StatusLog (sh : Shared) (s : Snap) : Prop where
  shown : s.conn.handle.status = s.conn.status
  enabled : s.shared.released.enabled = sh.released.enabled
  log : Notify.has sh.released.enabled Notify.status = true →
    ∃ E, s.shared.released.events = sh.released.events ++ E ∧
      Climb (fun _ _ => True) .none (notes E) s.conn.status

namespace StatusLog

variable {sh : Shared}

theorem create {o : Origin} {s₀ : Snap} (hc : o.Creates sh s₀) : StatusLog sh s₀ := by
  obtain ⟨hface, -, -, hen, E, hev, -, hnotes⟩ := Origin.create_spec hc.1
  have hst : s₀.conn.status = .connecting := by
    have := congrArg Face.status hface
    cases o <;> exact this
  have hshown : s₀.conn.handle.status = .connecting := by
    have := congrArg Face.shown hface
    cases o <;> exact this
  refine ⟨hshown.trans hst.symm, hen, fun hon => ⟨E, hev, ?_⟩⟩
  rw [hnotes hon, hst]
  exact .single (by decide) trivial

theorem turn (hl : StatusLog sh s) (ht : o.Turn s s') (hs : s.conn.Sound) : StatusLog sh s' := by
  obtain ⟨hen, E', hev, hclimb⟩ := ht.climb hs
  refine ⟨ht.shown hs hl.shown, hen.trans hl.enabled, fun hon => ?_⟩
  obtain ⟨E, hE, hc⟩ := hl.log hon
  have hon' : Notify.has s.shared.released.enabled Notify.status = true := by
    rw [hl.enabled]
    exact hon
  refine ⟨E ++ E', by rw [hev, hE, List.append_assoc], ?_⟩
  rw [notes_append]
  exact hc.trans ((hclimb hon').mono fun _ _ _ => trivial)

end StatusLog

/-- Over every run the handle shows the status, each turn keeps or raises the status and
never leaves disconnected, and when status events are kept they name the statuses entered, in
order and each once: over the whole run from none, and over each turn each with a reason that
turn's cause gives. -/
theorem status_moves_forward {o : Origin} {sh : Shared} {ts : List Turn} {s : Snap}
    (hr : Run o sh ts s) :
    s.conn.handle.status = s.conn.status ∧
      (∀ t ∈ ts, t.pre.conn.status.rank ≤ t.post.conn.status.rank ∧
        (t.pre.conn.status = .disconnected → t.post.conn.status = .disconnected)) ∧
      (Notify.has sh.released.enabled Notify.status = true →
        (∃ E, s.shared.released.events = sh.released.events ++ E ∧
          Climb (fun _ _ => True) .none (notes E) s.conn.status) ∧
        ∀ t ∈ ts, ∃ E, t.post.shared.released.events = t.pre.shared.released.events ++ E ∧
          Climb t.op.cause.Explains t.pre.conn.status (notes E) t.post.conn.status) := by
  have hlog := (hr.holds StatusLog.create fun ht hs hl => hl.turn ht hs).2
  have hturns := hr.turns StatusLog.create fun ht hs hl => hl.turn ht hs
  refine ⟨hlog.shown, fun t ht => ?_, fun hon => ⟨hlog.log hon, fun t ht => ?_⟩⟩
  · obtain ⟨ht₁, hs₁, -⟩ := hturns t ht
    have hle := ht₁.rank_le hs₁
    exact ⟨hle, fun hd => Status.eq_disconnected_of_rank (hd ▸ hle)⟩
  · obtain ⟨ht₁, hs₁, hl₁⟩ := hturns t ht
    obtain ⟨-, E, hev, hc⟩ := ht₁.climb hs₁
    exact ⟨E, hev, hc (by rw [hl₁.enabled]; exact hon)⟩

theorem status_moves_forward_refused :
    ∃ ts s, Run (.outgoing 0 (.localhost 6000) 1200 [7] 0) (Shared.create { appId := "app" }) ts s ∧
      ts.map Turn.op = [.heartbeat 0,
        .receive { kind := .control, control := some .disconnect, payloadLen := 5 } (Wire.putText "gone") 1] ∧
      s.conn.status = .disconnected ∧ s.conn.handle.status = s.conn.status ∧
      ∃ E, s.shared.released.events = E ∧ notes E = [(.connecting, ""), (.disconnected, "gone")] ∧
        Climb (fun _ _ => True) .none (notes E) s.conn.status := by
  obtain ⟨ts, s, hr, hops, hs⟩ := Run.of_runAll (.outgoing 0 (.localhost 6000) 1200 [7] 0)
    [.heartbeat 0,
      .receive { kind := .control, control := some .disconnect, payloadLen := 5 } (Wire.putText "gone") 1]
    (Shared.create { appId := "app" }) (fun x => (x.1.status, notes x.2.released.events))
    (.disconnected, [(.connecting, ""), (.disconnected, "gone")]) (by decide +kernel)
  obtain ⟨hd, hn⟩ := Prod.mk.inj hs
  obtain ⟨hshown, -, hlog⟩ := status_moves_forward hr
  obtain ⟨⟨E, hE, hc⟩, -⟩ := hlog (by decide +kernel)
  -- nothing was released before the connection was created
  have hE' : s.shared.released.events = E := hE.trans (List.nil_append E)
  exact ⟨ts, s, hr, hops, hd, hshown, E, hE', hE' ▸ hn, hc⟩

end ReliableUdp
