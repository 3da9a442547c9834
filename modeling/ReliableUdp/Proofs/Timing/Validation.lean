import ReliableUdp.Proofs.Timing.Handshake

/-!
# What validation bounds

Validation checks sizes and counts but reads no duration, so deadlines made from durations can
overflow under settings it accepts; its one product, the ack threshold times the entry length,
can stop it with an overflow (`validate_guards_sizes_not_durations`).
-/

namespace ReliableUdp

namespace Settings

/-- What validation may answer besides `ok`: a settings error, or the overflow of the ack
threshold times the length of an acknowledgement entry, when that product leaves the word. -/
def Refusal (s : Settings) (f : Fault) : Prop :=
  (∃ e, f = .settings e) ∨ (f = .crash .mulOverflow ∧ wordLimit ≤ s.ackThreshold * Payload.ackEntryLen)

variable {α β : Type} {P : Fault → Prop}

theorem check_bind_error {c : Bool} {e : SettingsError} {f : Unit → Except Fault α}
    (hf : ∀ g, f () = .error g → P g) (he : P (.settings e)) :
    ∀ g, (check c e >>= f) = .error g → P g := by
  intro g h
  unfold check at h
  cases c with
  | false =>
    cases h
    exact he
  | true => exact hf g h

theorem lift_bind_error {x : Except Crash α} {f : α → Except Fault β}
    (hx : ∀ c, x = .error c → P (.crash c)) (hf : ∀ a, x = .ok a → ∀ g, f a = .error g → P g) :
    ∀ g, (Fault.lift x >>= f) = .error g → P g := by
  intro g h
  cases hx' : x with
  | error c =>
    rw [hx'] at h
    cases h
    exact hx c hx'
  | ok a =>
    rw [hx'] at h
    exact hf a hx' g h

theorem validate_refusal (s : Settings) : ∀ f, s.validate = .error f → s.Refusal f := by
  have hset : ∀ e, s.Refusal (.settings e) := fun e => .inl ⟨e, rfl⟩
  unfold validate
  repeat' refine check_bind_error ?_ (hset _)
  refine lift_bind_error (fun c hc => ?_) fun _ _ => ?_
  · unfold mulWord at hc
    split at hc
    · cases hc
    · cases hc
      exact .inr ⟨rfl, Nat.le_of_not_lt ‹_›⟩
  · repeat' refine check_bind_error ?_ (hset _)
    intro g h
    unfold check at h
    dsimp only at h
    split at h
    · cases h
    · cases h
      exact hset _

end Settings

namespace Connection

variable {c : Connection} {sh : Shared}

theorem disconnect_lingers (hst : c.status = .connected) (hl : sh.settings.linger ≠ 0) (r : String)
    (now : Nat) : (∃ x, (c.disconnect r now).run sh = .ok x) ↔ now + sh.settings.linger < Span.instantLimit := by
  rw [disconnect, Step.settings_bind_run]
  simp only [hst, if_pos hl, Span.after]
  by_cases hin : now + sh.settings.linger < Span.instantLimit
  · rw [if_pos hin, Step.crash_ok_bind]
    refine ⟨fun _ => hin, fun _ => ?_⟩
    unfold setStatus
    split
    · exact ⟨_, rfl⟩
    · exact ⟨_, rfl⟩
  · rw [if_neg hin, Step.crash_error_bind]
    refine ⟨fun ⟨_, h⟩ => ?_, fun h => absurd h hin⟩
    cases h

theorem heartbeat_acceptor_runs {s : Settings} (hs : s.Sized) (hc : c.Fit s) (hset : sh.settings = s)
    (hi : c.initiator = false) (hst : c.status = .connecting) (hk : c.KeptOpen) (now : Nat) :
    (∃ x, (c.heartbeat now).run sh = .ok x) ↔ s.handshakeRetry * s.maxHandshakeAttempts < Span.limit := by
  constructor
  · rintro ⟨x, hx⟩
    by_contra hover
    rw [heartbeat_acceptor_overflows hi hst hk (hset ▸ Nat.le_of_not_lt hover)] at hx
    cases hx
  · intro hlim
    obtain ⟨c', sh', h⟩ := heartbeat_acceptor_ok hs hc hset hi hst hk hlim now
    exact ⟨_, h⟩

end Connection

/-- Validation guards sizes and counts, not durations. It answers `ok` or a settings error,
except that it stops with a multiplication overflow when the ack threshold times the entry length
leaves the machine word. It reads neither the handshake retry interval nor the linger, and under
settings it accepts the deadlines made from them overflow exactly when their value leaves its
range: the acceptor's handshake deadline at its periodic step, and the linger deadline at the
disconnect of a connected connection. -/
theorem validate_guards_sizes_not_durations (s : Settings) :
    (∀ f, s.validate = .error f →
      (∃ e, f = .settings e) ∨ (f = .crash .mulOverflow ∧ wordLimit ≤ s.ackThreshold * Payload.ackEntryLen)) ∧
    (∀ d l, ({ s with handshakeRetry := d, linger := l } : Settings).validate = s.validate) ∧
    (s.validate = .ok () → ∀ (c : Connection) (sh : Shared) (now : Nat), sh.settings = s → c.Fit s →
      c.initiator = false → c.status = .connecting → c.KeptOpen →
      ((∃ x, (c.heartbeat now).run sh = .ok x) ↔ s.handshakeRetry * s.maxHandshakeAttempts < Span.limit)) ∧
    (∀ (c : Connection) (sh : Shared) (r : String) (now : Nat), sh.settings = s → c.status = .connected →
      s.linger ≠ 0 → ((∃ x, (c.disconnect r now).run sh = .ok x) ↔ now + s.linger < Span.instantLimit)) :=
  ⟨s.validate_refusal, fun _ _ => rfl,
    fun hv _ _ now hset hc hi hst hk => Connection.heartbeat_acceptor_runs (Settings.sized_of_validate hv) hc hset hi hst hk now,
    fun _ _ r now hset hst hl => hset ▸ Connection.disconnect_lingers hst (hset ▸ hl) r now⟩

def lingering : Settings := { appId := "demo", linger := Span.ofMillis 500 }

theorem validate_guards_sizes_not_durations_lingering :
    lingering.validate = .ok () ∧
      (∃ ts x, Run (.outgoing 0 (.localhost 6000) 1200 [] 0) (Shared.create lingering) ts x ∧
        x.conn.status = .connected ∧ lingering.linger ≠ 0 ∧
        ((∃ y, (x.conn.disconnect "bye" 2).run x.shared = .ok y) ↔ 2 + lingering.linger < Span.instantLimit)) ∧
      (∃ x, Run (.incoming 0 (.localhost 5000) 1200 [] 0) (Shared.create lingering) [] x ∧
        x.conn.Fit lingering ∧ x.conn.initiator = false ∧ x.conn.status = .connecting ∧ x.conn.KeptOpen ∧
        ((∃ y, (x.conn.heartbeat 1).run x.shared = .ok y) ↔
          lingering.handshakeRetry * lingering.maxHandshakeAttempts < Span.limit)) := by
  have hv : lingering.validate = .ok () := by decide +kernel
  have hguard := validate_guards_sizes_not_durations lingering
  refine ⟨hv, ?_, ?_⟩
  · obtain ⟨ts, x, hr, -, hst⟩ := Run.of_runAll (.outgoing 0 (.localhost 6000) 1200 [] 0)
      [.heartbeat 0, .receive { kind := .control, control := some .connectResponse, payloadLen := 1 } [0] 1]
      (Shared.create lingering) (fun y => y.1.status) .connected (by decide +kernel)
    have hl : lingering.linger ≠ 0 := by decide
    exact ⟨ts, x, hr, hst, hl, hguard.2.2.2 x.conn x.shared "bye" 2 hr.settings hst hl⟩
  · obtain ⟨ts, x, hr, hops, hv'⟩ := Run.of_runAll (.incoming 0 (.localhost 5000) 1200 [] 0) []
      (Shared.create lingering) (fun y => (y.1.status, y.1.handle.disconnectRequest, y.1.handshake.awaitingApproval))
      (.connecting, none, false) (by decide +kernel)
    obtain rfl : ts = [] := List.map_eq_nil_iff.1 hops
    simp only [Prod.mk.injEq] at hv'
    obtain ⟨hst, hreq, haw⟩ := hv'
    have hk : x.conn.KeptOpen := ⟨hreq, fun h => absurd (haw.symm.trans h) Bool.false_ne_true⟩
    have ho : (Origin.incoming 0 (.localhost 5000) 1200 [] 0).Allowed (Shared.create lingering).settings :=
      show 1200 ≤ lingering.maxPayload by decide
    have hfit : x.conn.Fit lingering :=
      (hr.fit (Settings.sized_of_validate hv) ho fun _ h => absurd h List.not_mem_nil).conn
    have hi : x.conn.initiator = false := congrArg Prod.fst hr.birth
    exact ⟨x, hr, hfit, hi, hst, hk, hguard.2.2.1 hv x.conn x.shared 1 hr.settings hfit hi hst hk⟩

def hugeAckThreshold : Settings := { appId := "test", ackThreshold := 6148914691236517206 }

def hugeMultiplier : Settings := { appId := "test", resend := { rttMultipliers := [1e300] } }

/-- Validation guards against no overflow. An ack threshold whose product with the entry length
leaves the machine word stops it with an overflow, while one less is refused as too big for a
datagram. And it accepts an RTT multiplier of `1e300`: a connection started here, answered at 1,
that is asked to send a reliable message stops at its next periodic step, when it schedules the
resend at the round trip of the handshake times the multiplier. -/
theorem validate_is_no_overflow_guard :
    hugeAckThreshold.validate = .error (.crash .mulOverflow) ∧
      ({ hugeAckThreshold with ackThreshold := 6148914691236517205 } : Settings).validate =
        .error (.settings .ackThresholdTooBig) ∧
      hugeMultiplier.validate = .ok () ∧
      ∃ ts x, Run (.outgoing 0 (.localhost 6000) 1200 [] 0) (Shared.create hugeMultiplier) ts x ∧
        ts.map Turn.op = [.heartbeat 0,
          .receive { kind := .control, control := some .connectResponse, payloadLen := 1 } [0] 1,
          .request (.send .reliableOrdered 0 [1] .normal)] ∧
        ((Op.heartbeat 2).run x.conn).run x.shared = .error .secondsOutOfRange := by
  refine ⟨by decide +kernel, by decide +kernel, by decide +kernel, ?_⟩
  obtain ⟨ts, x, hr, hops, hx⟩ := Run.of_runAll (.outgoing 0 (.localhost 6000) 1200 [] 0)
    [.heartbeat 0, .receive { kind := .control, control := some .connectResponse, payloadLen := 1 } [0] 1,
      .request (.send .reliableOrdered 0 [1] .normal)] (Shared.create hugeMultiplier)
    (fun y => match ((Op.heartbeat 2).run y.1).run y.2 with
      | .error e => some e
      | .ok _ => none)
    (some .secondsOutOfRange) (by decide +kernel)
  refine ⟨ts, x, hr, hops, ?_⟩
  revert hx
  cases ((Op.heartbeat 2).run x.conn).run x.shared with
  | error e => exact fun h => by cases h; rfl
  | ok _ => exact fun h => by cases h

end ReliableUdp
