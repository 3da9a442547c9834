import ReliableUdp.Proofs.Lifecycle.Runs

/-!
# What a connection writes once it is closed

A disconnected connection writes nothing more but the Disconnect of a denial pending while it
awaited approval, so a connection created to await approval may write two Disconnects.
-/

namespace ReliableUdp

theorem split_first_unique {α : Type} {P : α → Prop} {x₁ x₂ z₁ z₂ : List α} {a₁ a₂ : α}
    (h : x₁ ++ a₁ :: z₁ = x₂ ++ a₂ :: z₂) (h₁ : P a₁) (h₂ : P a₂)
    (hx₁ : ∀ m ∈ x₁, ¬P m) (hx₂ : ∀ m ∈ x₂, ¬P m) : x₁ = x₂ ∧ a₁ = a₂ ∧ z₁ = z₂ := by
  induction x₁ generalizing x₂ with
  | nil =>
    cases x₂ with
    | nil => simpa using h
    | cons b x₂ =>
      obtain ⟨rfl, -⟩ := List.cons.inj h
      exact absurd h₁ (hx₂ _ List.mem_cons_self)
  | cons b x₁ ih =>
    cases x₂ with
    | nil =>
      obtain ⟨rfl, -⟩ := List.cons.inj h
      exact absurd h₂ (hx₁ _ List.mem_cons_self)
    | cons b' x₂ =>
      obtain ⟨rfl, h'⟩ := List.cons.inj h
      obtain ⟨rfl, rfl, rfl⟩ := ih h' (fun m hm => hx₁ m (List.mem_cons_of_mem _ hm))
        (fun m hm => hx₂ m (List.mem_cons_of_mem _ hm))
      exact ⟨rfl, rfl, rfl⟩

/-- What a connection has written around its first Disconnect: no Disconnect; or the first,
the connection being disconnected since, then at most one more message, a Disconnect, written
only by a connection created to await approval `a₀` and after which nothing is awaited. -/
def FirstDisconnect (a₀ : Bool) (W : List (Header × Bytes)) (f : Face) : Prop :=
  (∀ m ∈ W, ¬IsControl .disconnect m) ∨
    ∃ W₁ d W₂, W = W₁ ++ d :: W₂ ∧ (∀ m ∈ W₁, ¬IsControl .disconnect m) ∧
      IsControl .disconnect d ∧ f.status = .disconnected ∧
      (W₂ = [] ∨ ∃ d₂, W₂ = [d₂] ∧ IsControl .disconnect d₂ ∧ f.awaiting = false ∧ a₀ = true)

theorem FirstDisconnect.congr {a₀ : Bool} {W : List (Header × Bytes)} {f g : Face}
    (h : FirstDisconnect a₀ W f) (hs : g.status = f.status) (ha : g.awaiting = f.awaiting) :
    FirstDisconnect a₀ W g := by
  unfold FirstDisconnect
  rw [hs, ha]
  exact h

section Moves

variable {κ : Cause} {c c' : Connection} {sh sh' : Shared} {e E : List Event}
  {ms M W : List (Header × Bytes)} {a₀ : Bool}

theorem Move.disconnect_alone {m : Header × Bytes} (h : Move κ c sh e ms c' sh') (hm : m ∈ ms)
    (hk : IsControl .disconnect m) : ms = [m] ∧ c'.face.status = .disconnected := by
  have hd : c'.face.status = .disconnected := by
    rcases h.control_cases hm hk with ⟨hw, -⟩ | ⟨-, hd⟩ | ⟨hk', -⟩
    · exact hw.elim
    · exact hd
    · cases hk'
  rcases h.writes_one with rfl | ⟨m', rfl⟩
  · cases hm
  · exact ⟨by rw [List.mem_singleton.1 hm], hd⟩

theorem Move.firstDisconnect (h : Move κ c sh e ms c' sh') (ha : c.face.awaiting = true → a₀ = true)
    (hW : FirstDisconnect a₀ W c.face) : FirstDisconnect a₀ (W ++ ms) c'.face := by
  rcases hW with hnone | ⟨W₁, d, W₂, rfl, h₁, hd, hst, hW₂⟩
  · by_cases hms : ∃ m ∈ ms, IsControl .disconnect m
    · -- the move writes the first Disconnect, on its own, and closes
      obtain ⟨m, hm, hk⟩ := hms
      obtain ⟨rfl, hd'⟩ := h.disconnect_alone hm hk
      exact .inr ⟨W, m, [], rfl, hnone, hk, hd', .inl rfl⟩
    · refine .inl fun m hm hk => ?_
      rcases List.mem_append.1 hm with hm | hm
      · exact hnone m hm hk
      · exact hms ⟨m, hm, hk⟩
  · obtain ⟨hd', ha', hms⟩ := h.late hst
    rcases hms with rfl | ⟨d', rfl, hk, hac, hac'⟩
    · refine .inr ⟨W₁, d, W₂, by simp, h₁, hd, hd', ?_⟩
      rcases hW₂ with rfl | ⟨d₂, rfl, hk₂, haw, ha₀⟩
      · exact .inl rfl
      · -- nothing is awaited before, so nothing after
        refine .inr ⟨d₂, rfl, hk₂, ?_, ha₀⟩
        cases h' : c'.face.awaiting
        · rfl
        · rw [ha' h'] at haw
          cases haw
    · -- the Disconnect of the denial ends the awaiting, so it comes once
      rcases hW₂ with rfl | ⟨-, -, -, haw, -⟩
      · exact .inr ⟨W₁, d, [d'], by simp, h₁, hd, hd', .inr ⟨d', rfl, hk, hac', ha hac⟩⟩
      · rw [hac] at haw
        cases haw

theorem Path.firstDisconnect (h : Path κ c sh E M c' sh') (ha : c.face.awaiting = true → a₀ = true)
    (hW : FirstDisconnect a₀ W c.face) :
    (c'.face.awaiting = true → a₀ = true) ∧ FirstDisconnect a₀ (W ++ M) c'.face := by
  induction h with
  | refl => exact ⟨ha, by simpa using hW⟩
  | snoc _ hmove ih =>
    obtain ⟨ha₁, hW₁⟩ := ih
    refine ⟨fun h => ha₁ (hmove.face_step.awaiting_of h), ?_⟩
    rw [← List.append_assoc]
    exact hmove.firstDisconnect ha₁ hW₁

end Moves

theorem Run.wire_eq {o : Origin} {sh : Shared} {ts : List Turn} {s : Snap} {W : List (Header × Bytes)}
    (hr : Run o sh ts s) (hts : Op.take ∉ ts.map Turn.op) (hW : ∀ m ∈ W, MessageWellFormed m)
    (hc : s.conn.writer.content = Datagram.Writer.encoding W) : s.wire = W := by
  obtain ⟨s₀, hc₀, hch⟩ := hr
  -- a connection is created with nothing written
  have h₀ : s₀.conn.writer.content = [] := (Origin.create_spec hc₀.1).2.2.1
  rw [hch.wire_eq hts hW (by rw [hc, h₀]; rfl), hc₀.2]
  rfl

structure Written (a₀ : Bool) (s : Snap) : Prop where
  awaited : s.conn.face.awaiting = true → a₀ = true
  first : FirstDisconnect a₀ s.wire s.conn.face

namespace Written

variable {a₀ : Bool} {o : Op} {s s' : Snap}

theorem create {o : Origin} {sh : Shared} {s₀ : Snap} (hc : o.Creates sh s₀) :
    Written (o.face sh.settings).awaiting s₀ := by
  obtain ⟨hface, -⟩ := Origin.create_spec hc.1
  refine ⟨fun h => hface ▸ h, .inl ?_⟩
  rw [hc.2]
  intro m hm
  cases hm

theorem turn (hw : Written a₀ s) (ht : o.Turn s s') (hs : s.conn.Sound) : Written a₀ s' := by
  rcases (ht.cases hs).2 with ⟨-, E, M, hp, hwire⟩ | ⟨-, hf, -, hwire⟩
  · obtain ⟨ha, hW⟩ := hp.firstDisconnect hw.awaited hw.first
    exact ⟨ha, hwire ▸ hW⟩
  · -- a request or a take keeps the status and what is awaited
    have hst : s'.conn.face.status = s.conn.face.status := by rw [hf]
    have haw : s'.conn.face.awaiting = s.conn.face.awaiting := by rw [hf]
    exact ⟨haw ▸ hw.awaited, hwire ▸ hw.first.congr hst haw⟩

end Written

theorem Op.Turn.late {o : Op} {s s' : Snap} (ht : o.Turn s s') (hs : s.conn.Sound)
    (hd : s.conn.status = .disconnected) :
    s'.wire = s.wire ∨ ∃ d, s'.wire = s.wire ++ [d] ∧ IsControl .disconnect d ∧
      s.conn.face.awaiting = true ∧ s'.conn.face.awaiting = false := by
  rcases (ht.cases hs).2 with ⟨-, E, M, hp, hwire⟩ | ⟨-, -, -, hwire⟩
  · obtain ⟨-, -, hM⟩ := hp.late hd
    rcases hM with rfl | ⟨d, rfl, hk, ha, ha'⟩
    · exact .inl (by simpa using hwire)
    · exact .inr ⟨d, hwire, hk, ha, ha'⟩
  · exact .inl hwire

/-- Once disconnected a connection writes nothing more but the one Disconnect of a denial
pending while it awaited approval. The first Disconnect it writes goes out as it closes, and
what follows it is at most one Disconnect more, written only by a connection created to await
approval. -/
theorem disconnect_ends_writing {o : Origin} {sh : Shared} {ts : List Turn} {s : Snap}
    (hr : Run o sh ts s) :
    (∀ t ∈ ts, t.pre.conn.status = .disconnected →
      t.post.wire = t.pre.wire ∨ ∃ d, t.post.wire = t.pre.wire ++ [d] ∧ IsControl .disconnect d ∧
        t.pre.conn.face.awaiting = true ∧ t.post.conn.face.awaiting = false) ∧
    ∀ W₁ d W₂, s.wire = W₁ ++ d :: W₂ → IsControl .disconnect d →
      (∀ m ∈ W₁, ¬IsControl .disconnect m) →
      s.conn.status = .disconnected ∧
        (W₂ = [] ∨ ∃ d₂, W₂ = [d₂] ∧ IsControl .disconnect d₂ ∧ (o.face sh.settings).awaiting = true) := by
  refine ⟨fun t ht hd => ?_, fun W₁ d W₂ hw hd h₁ => ?_⟩
  · obtain ⟨ht₁, hs₁, -⟩ := hr.turns (I := fun _ => True) (fun _ => trivial) (fun _ _ _ => trivial) t ht
    exact ht₁.late hs₁ hd
  · obtain ⟨-, hW⟩ := hr.holds Written.create fun ht hs hw => hw.turn ht hs
    rcases hW.first with hnone | ⟨V₁, e, V₂, hV, hv₁, he, hst, hV₂⟩
    · exact absurd hd (hnone d (by rw [hw]; simp))
    · -- both splits are at the first Disconnect
      obtain ⟨-, -, rfl⟩ := split_first_unique (hw.symm.trans hV) hd he h₁ hv₁
      refine ⟨hst, ?_⟩
      rcases hV₂ with rfl | ⟨d₂, rfl, hk, -, ha₀⟩
      · exact .inl rfl
      · exact .inr ⟨d₂, rfl, hk, ha₀⟩

theorem disconnect_ends_writing_outgoing :
    ∃ ts s, Run (.outgoing 0 (.localhost 6000) 1200 [7] 0) (Shared.create { appId := "app" }) ts s ∧
      ts.map Turn.op = [.heartbeat 0, .disconnect "done" 1, .heartbeat 2] ∧
      s.conn.status = .disconnected ∧ ∃ W₁ d, s.wire = W₁ ++ [d] ∧ IsControl .disconnect d := by
  obtain ⟨ts, s, hr, hops, hc⟩ := Run.of_runAll (.outgoing 0 (.localhost 6000) 1200 [7] 0)
    [.heartbeat 0, .disconnect "done" 1, .heartbeat 2] (Shared.create { appId := "app" })
    (fun x => x.1.writer.content)
    (Datagram.Writer.encoding
      [({ kind := .control, control := some .connect, payloadLen := (Payload.connect "app" [7]).length },
          Payload.connect "app" [7]),
        ({ kind := .control, control := some .disconnect, payloadLen := 5 }, Wire.putText "done")])
    (by decide +kernel)
  have hw := hr.wire_eq (by rw [hops]; simp) (by
    intro m hm
    simp only [List.mem_cons, List.not_mem_nil, or_false] at hm
    rcases hm with rfl | rfl
    · exact Header.ofControl_wellFormed (k := .connect) (by decide +kernel)
    · exact Header.ofControl_wellFormed (k := .disconnect) (by decide +kernel)) hc
  obtain ⟨hd, -⟩ := (disconnect_ends_writing hr).2 [_] _ [] hw ⟨rfl, rfl⟩ (by simp [IsControl])
  exact ⟨ts, s, hr, hops, hd, [_], _, hw, ⟨rfl, rfl⟩⟩

/-- An incoming connection awaiting approval, asked to disconnect and denied before its next
heartbeat: that heartbeat writes Disconnect with the reason of the request, closing the
connection, and then Disconnect with the reason of the denial. -/
theorem two_disconnects_on_denial :
    ∃ ts s, Run (.incoming 0 (.localhost 6000) 1200 [7] 0)
        (Shared.create { appId := "app", connectionApproval := true }) ts s ∧
      ts.map Turn.op = [.request (.disconnect "bye"), .request (.deny "no"), .heartbeat 1] ∧
      s.wire = [({ kind := .control, control := some .disconnect, payloadLen := 4 }, Wire.putText "bye"),
        ({ kind := .control, control := some .disconnect, payloadLen := 3 }, Wire.putText "no")] := by
  obtain ⟨ts, s, hr, hops, hc⟩ := Run.of_runAll (.incoming 0 (.localhost 6000) 1200 [7] 0)
    [.request (.disconnect "bye"), .request (.deny "no"), .heartbeat 1]
    (Shared.create { appId := "app", connectionApproval := true }) (fun x => x.1.writer.content)
    (Datagram.Writer.encoding
      [({ kind := .control, control := some .disconnect, payloadLen := 4 }, Wire.putText "bye"),
        ({ kind := .control, control := some .disconnect, payloadLen := 3 }, Wire.putText "no")])
    (by decide +kernel)
  refine ⟨ts, s, hr, hops, hr.wire_eq (by rw [hops]; simp) ?_ hc⟩
  intro m hm
  simp only [List.mem_cons, List.not_mem_nil, or_false] at hm
  rcases hm with rfl | rfl <;> exact Header.ofControl_wellFormed (k := .disconnect) (by decide +kernel)

end ReliableUdp
