import Mathlib.Data.List.Chain
import ReliableUdp.Proofs.Timing.Birth

/-!
# Handshake deadlines

An initiator sends Connect every retry interval until its attempts are spent, then gives up; an
acceptor still connecting gives up past the retry interval times the attempts
(`handshake_deadlines`). That product can leave the range of durations under valid settings.
-/

namespace ReliableUdp

theorem Step.settings_bind_run {α : Type} (f : Settings → Step α) (sh : Shared) :
    (Step.settings >>= f).run sh = (f sh.settings).run sh := rfl

namespace Connection

variable {c c' : Connection} {sh sh' : Shared} {now : Nat}

structure Unasked (c : Connection) : Prop where
  request : c.handle.disconnectRequest = none
  awaiting : c.handshake.awaitingApproval = false

theorem pollRequests_unasked (hu : c.Unasked) : c.pollRequests now = pure c := by
  simp [pollRequests, hu.request, hu.awaiting]

theorem heartbeat_connecting (hu : c.Unasked) (hst : c.status = .connecting) :
    c.heartbeat now = c.handshakeHeartbeat now := by
  simp only [heartbeat, pollRequests_unasked hu, pure_bind, hst]

theorem heartbeat_disconnected (hu : c.Unasked) (hst : c.status = .disconnected) :
    c.heartbeat now = pure c := by
  simp only [heartbeat, pollRequests_unasked hu, pure_bind, hst]

theorem close_handshake {r : String} (hr : (c.close r).run sh = .ok (c', sh')) :
    c'.initiator = c.initiator ∧ c'.handshake = c.handshake ∧
      c'.handle.disconnectRequest = c.handle.disconnectRequest := by
  unfold close at hr
  split at hr
  · cases hr
    exact ⟨rfl, rfl, rfl⟩
  · obtain ⟨_, sh₁, -, hr⟩ := Step.run_bind_ok hr
    obtain ⟨_, sh₂, -, hr⟩ := Step.run_bind_ok hr
    rcases setStatus_run hr with ⟨-, rfl, -⟩ | ⟨-, rfl, -⟩ <;> exact ⟨rfl, rfl, rfl⟩

/-! ## One handshake step -/

section Initiator

variable (hi : c.initiator = true)
include hi

theorem handshakeHeartbeat_waits {l : Nat} (hl : c.handshake.lastAttempt = some l)
    (hwait : now - l < sh.settings.handshakeRetry) : (c.handshakeHeartbeat now).run sh = .ok (c, sh) := by
  rw [handshakeHeartbeat, Step.settings_bind_run]
  simp only [hi, hl, if_true, ge_iff_le, Nat.not_le.2 hwait, decide_false, Bool.not_false]
  rfl

theorem handshakeHeartbeat_gives_up (hdue : ∀ l ∈ c.handshake.lastAttempt, sh.settings.handshakeRetry ≤ now - l)
    (hspent : sh.settings.maxHandshakeAttempts ≤ c.handshake.attempts) :
    (c.handshakeHeartbeat now).run sh = (c.close "No answer from remote host").run sh := by
  cases hl : c.handshake.lastAttempt with
  | none =>
    rw [handshakeHeartbeat, Step.settings_bind_run]
    simp [hi, hl, hspent]
  | some l =>
    rw [handshakeHeartbeat, Step.settings_bind_run]
    simp [hi, hl, hspent, hdue l hl]

theorem handshakeHeartbeat_calls (hdue : ∀ l ∈ c.handshake.lastAttempt, sh.settings.handshakeRetry ≤ now - l)
    (hleft : c.handshake.attempts < sh.settings.maxHandshakeAttempts) :
    (c.handshakeHeartbeat now).run sh = (writeControl
      { c with handshake := { c.handshake with attempts := c.handshake.attempts + 1, lastAttempt := some now } }
      .connect (Payload.connect sh.settings.appId c.handshake.localHail) now).run sh := by
  cases hl : c.handshake.lastAttempt with
  | none =>
    rw [handshakeHeartbeat, Step.settings_bind_run]
    simp [hi, hl, Nat.not_le.2 hleft]
  | some l =>
    rw [handshakeHeartbeat, Step.settings_bind_run]
    simp [hi, hl, Nat.not_le.2 hleft, hdue l hl]

theorem handshakeHeartbeat_initiator {P : Except Crash (Connection × Shared) → Prop}
    (hwait : ∀ l, c.handshake.lastAttempt = some l → now - l < sh.settings.handshakeRetry → P (.ok (c, sh)))
    (hgive : (∀ l ∈ c.handshake.lastAttempt, sh.settings.handshakeRetry ≤ now - l) →
      sh.settings.maxHandshakeAttempts ≤ c.handshake.attempts →
      P ((c.close "No answer from remote host").run sh))
    (hcall : (∀ l ∈ c.handshake.lastAttempt, sh.settings.handshakeRetry ≤ now - l) →
      c.handshake.attempts < sh.settings.maxHandshakeAttempts →
      P ((writeControl
        { c with handshake := { c.handshake with attempts := c.handshake.attempts + 1, lastAttempt := some now } }
        .connect (Payload.connect sh.settings.appId c.handshake.localHail) now).run sh)) :
    P ((c.handshakeHeartbeat now).run sh) := by
  by_cases hdue : ∀ l ∈ c.handshake.lastAttempt, sh.settings.handshakeRetry ≤ now - l
  · by_cases hleft : c.handshake.attempts < sh.settings.maxHandshakeAttempts
    · rw [handshakeHeartbeat_calls hi hdue hleft]
      exact hcall hdue hleft
    · rw [handshakeHeartbeat_gives_up hi hdue (Nat.le_of_not_lt hleft)]
      exact hgive hdue (Nat.le_of_not_lt hleft)
  · push Not at hdue
    obtain ⟨l, hl, hlate⟩ := hdue
    rw [handshakeHeartbeat_waits hi hl hlate]
    exact hwait l hl hlate

end Initiator

section Acceptor

variable (hi : c.initiator = false)
include hi

theorem handshakeHeartbeat_overflows
    (hover : Span.limit ≤ sh.settings.handshakeRetry * sh.settings.maxHandshakeAttempts) :
    (c.handshakeHeartbeat now).run sh = .error .spanMulOverflow := by
  rw [handshakeHeartbeat, Step.settings_bind_run, if_neg (by simp [hi]), Span.mulCount, if_neg (Nat.not_lt.2 hover),
    Step.crash_error_bind]

theorem handshakeHeartbeat_expires
    (hlim : sh.settings.handshakeRetry * sh.settings.maxHandshakeAttempts < Span.limit)
    (hlate : c.handshake.started + sh.settings.handshakeRetry * sh.settings.maxHandshakeAttempts < now) :
    (c.handshakeHeartbeat now).run sh = (c.close "Failed to complete handshake").run sh := by
  have hgap : sh.settings.handshakeRetry * sh.settings.maxHandshakeAttempts < now - c.handshake.started := by
    omega
  rw [handshakeHeartbeat, Step.settings_bind_run, if_neg (by simp [hi]), Span.mulCount, if_pos hlim,
    Step.crash_ok_bind, if_pos hgap]

theorem handshakeHeartbeat_answers
    (hlim : sh.settings.handshakeRetry * sh.settings.maxHandshakeAttempts < Span.limit)
    (hin : now ≤ c.handshake.started + sh.settings.handshakeRetry * sh.settings.maxHandshakeAttempts) :
    (c.handshakeHeartbeat now).run sh =
      (if !c.handshake.awaitingApproval && !c.handshake.responseSent then
        sendConnectResponse { c with handshake := { c.handshake with responseSent := true } } now
      else pure c).run sh := by
  have hgap : now - c.handshake.started ≤ sh.settings.handshakeRetry * sh.settings.maxHandshakeAttempts := by
    omega
  rw [handshakeHeartbeat, Step.settings_bind_run, if_neg (by simp [hi]), Span.mulCount, if_pos hlim,
    Step.crash_ok_bind, if_neg (Nat.not_lt.2 hgap)]

end Acceptor

/-! ## What the application asked -/

structure KeptOpen (c : Connection) : Prop where
  request : c.handle.disconnectRequest = none
  refusal : c.handshake.awaitingApproval = true → ∀ r, c.handle.decision ≠ some (.deny r)

theorem pollRequests_keptOpen (hk : c.KeptOpen) (now : Nat) :
    ∃ c₁, c.pollRequests now = pure c₁ ∧ c₁.status = c.status ∧ c₁.birth = c.birth ∧
      c₁.handle.id = c.handle.id ∧ c₁.remote = c.remote := by
  unfold pollRequests
  simp only [hk.request, pure_bind]
  split
  · rename_i d hwait hd
    cases d with
    | approve hail => exact ⟨_, rfl, rfl, rfl, rfl, rfl⟩
    | deny r => exact absurd hd (hk.refusal hwait r)
  · exact ⟨c, rfl, rfl, rfl, rfl, rfl⟩

theorem statusNote_congr {c₁ : Connection} (hid : c₁.handle.id = c.handle.id) (hr : c₁.remote = c.remote)
    (st : Status) (reason : String) : statusNote sh c₁ st reason = statusNote sh c st reason := by
  simp only [statusNote, hid, hr]

theorem heartbeat_acceptor (hi : c.initiator = false) (hst : c.status = .connecting) (hk : c.KeptOpen)
    (hlim : sh.settings.handshakeRetry * sh.settings.maxHandshakeAttempts < Span.limit)
    (hr : (c.heartbeat now).run sh = .ok (c', sh')) :
    (c.handshake.started + sh.settings.handshakeRetry * sh.settings.maxHandshakeAttempts < now →
      c'.status = .disconnected ∧ Emits sh (statusNote sh c .disconnected "Failed to complete handshake") sh') ∧
    (now ≤ c.handshake.started + sh.settings.handshakeRetry * sh.settings.maxHandshakeAttempts →
      c'.status = .connecting) := by
  obtain ⟨c₁, hpoll, hst₁, hbirth, hid, hrem⟩ := pollRequests_keptOpen hk now
  have hi₁ : c₁.initiator = false := (congrArg Prod.fst hbirth).trans hi
  have hstart : c₁.handshake.started = c.handshake.started := congrArg Prod.snd hbirth
  simp only [heartbeat, hpoll, pure_bind, hst₁, hst] at hr
  refine ⟨fun hlate => ?_, fun hin => ?_⟩
  · rw [handshakeHeartbeat_expires hi₁ hlim (hstart ▸ hlate)] at hr
    obtain ⟨hface, -, hemits, -⟩ := close_run hr
    refine ⟨(congrArg Face.status hface).trans (Face.close_status _), ?_⟩
    rwa [closeNote, if_neg (by rw [hst₁, hst]; decide), statusNote_congr hid hrem] at hemits
  · rw [handshakeHeartbeat_answers hi₁ hlim (hstart ▸ hin)] at hr
    split at hr
    · -- the ConnectResponse is written; the status stays
      rw [sendConnectResponse] at hr
      obtain ⟨_, _, -, -, rfl, -⟩ := writeControl_run hr
      exact hst₁.trans hst
    · cases hr
      exact hst₁.trans hst

/-! ## Steps that run -/

theorem close_ok (c : Connection) (r : String) (sh : Shared) : ∃ c' sh', (c.close r).run sh = .ok (c', sh') := by
  unfold close
  split
  · exact ⟨_, _, rfl⟩
  · rename_i hst
    unfold setStatus
    simp only [hst, if_false]
    exact ⟨_, _, rfl⟩

theorem writeControl_ok {s : Settings} (hs : s.Sized) (hc : c.Fit s) (k : Control) {p : Bytes}
    (hp : p.length ≤ s.maxPayload) (now : Nat) (sh : Shared) :
    ∃ c', (c.writeControl k p now).run sh = .ok (c', sh) := by
  obtain ⟨hfit, hlen⟩ := hc.payload_le hs hp
  have hh := Header.ofControl_ok k hlen
  have hhead := Header.ofControl_encodedLen hh
  obtain ⟨w, hw⟩ : ∃ w, c.writer.write { kind := .control, control := some k, payloadLen := p.length } p = .ok w :=
    Datagram.Writer.write_ok (by unfold Header.maxLen at hfit; omega)
  refine ⟨{ c with writer := w, lastSent := now }, ?_⟩
  rw [writeControl, hh, Step.crash_ok_bind, hw, Step.crash_ok_bind]
  rfl

theorem heartbeat_acceptor_overflows (hi : c.initiator = false) (hst : c.status = .connecting) (hk : c.KeptOpen)
    (hover : Span.limit ≤ sh.settings.handshakeRetry * sh.settings.maxHandshakeAttempts) :
    (c.heartbeat now).run sh = .error .spanMulOverflow := by
  obtain ⟨c₁, hpoll, hst₁, hbirth, -, -⟩ := pollRequests_keptOpen hk now
  simp only [heartbeat, hpoll, pure_bind, hst₁, hst]
  exact handshakeHeartbeat_overflows ((congrArg Prod.fst hbirth).trans hi) hover

theorem heartbeat_acceptor_ok {s : Settings} (hs : s.Sized) (hc : c.Fit s) (hset : sh.settings = s)
    (hi : c.initiator = false) (hst : c.status = .connecting) (hk : c.KeptOpen)
    (hlim : s.handshakeRetry * s.maxHandshakeAttempts < Span.limit) (now : Nat) :
    ∃ c' sh', (c.heartbeat now).run sh = .ok (c', sh') := by
  obtain ⟨c₁, hpoll, hst₁, hbirth, -, -⟩ := pollRequests_keptOpen hk now
  have hc₁ : c₁.Fit s := ((pollRequests_safe hs hc now sh hset).2 c₁ sh (by rw [hpoll]; rfl)).2
  have hi₁ : c₁.initiator = false := (congrArg Prod.fst hbirth).trans hi
  subst hset
  simp only [heartbeat, hpoll, pure_bind, hst₁, hst]
  by_cases hlate : c₁.handshake.started + sh.settings.handshakeRetry * sh.settings.maxHandshakeAttempts < now
  · rw [handshakeHeartbeat_expires hi₁ hlim hlate]
    exact close_ok _ _ _
  · rw [handshakeHeartbeat_answers hi₁ hlim (Nat.le_of_not_lt hlate)]
    split
    · -- the ConnectResponse carries the hail, which fits one control payload
      obtain ⟨c', h⟩ := writeControl_ok hs (c := { c₁ with handshake := { c₁.handshake with
        responseSent := true, lastAttempt := some now } }) { hc₁ with } .connectResponse
        (p := Wire.putBytes c₁.handshake.localHail) (by rw [Wire.length_putBytes]; exact hc₁.hail) now sh
      exact ⟨c', sh, h⟩
    · exact ⟨_, _, rfl⟩

end Connection

/-! ## Runs that bring no answer -/

/-- What a connection sees when the remote side never answers and the application asks nothing:
its periodic step, and the socket taking its datagrams. -/
def Op.Quiet : Op → Prop
  | .heartbeat _ | .take => True
  | _ => False

instance : DecidablePred Op.Quiet
  | .heartbeat _ | .take => isTrue trivial
  | .receive .. | .disconnect .. | .finishDisconnect .. | .close _ | .forciblyClosed | .request _ => isFalse id

theorem Op.Quiet.allowed {op : Op} (h : op.Quiet) (s : Settings) : op.Allowed s := by
  cases op with
  | heartbeat | take => trivial
  | _ => exact h.elim

namespace Turn

def written (t : Turn) : List (Header × Bytes) := t.post.wire.drop t.pre.wire.length

def connects (t : Turn) : List Nat :=
  match t.op with
  | .heartbeat now => (t.written.filter (·.1.control = some .connect)).map fun _ => now
  | _ => []

theorem written_eq {t : Turn} {ms : List (Header × Bytes)} (h : t.post.wire = t.pre.wire ++ ms) :
    t.written = ms := by
  rw [written, h, List.drop_left]

end Turn

def connectTimes (ts : List Turn) : List Nat := ts.flatMap Turn.connects

theorem connectTimes_snoc (ts : List Turn) (t : Turn) :
    connectTimes (ts ++ [t]) = connectTimes ts ++ t.connects := by
  simp [connectTimes]

def connectMessage (s : Settings) (hail : Bytes) : Header × Bytes :=
  ({ kind := .control, control := some .connect, payloadLen := (Payload.connect s.appId hail).length },
    Payload.connect s.appId hail)

def GivesUp (s : Settings) (cs : List Nat) (now : Nat) : Prop :=
  cs.length = s.maxHandshakeAttempts ∧ ∀ l ∈ cs.getLast?, s.handshakeRetry ≤ now - l

def GaveUp (s : Settings) (ts : List Turn) : Prop :=
  ∃ p t q now, ts = p ++ t :: q ∧ t.op = .heartbeat now ∧ GivesUp s (connectTimes p) now

theorem gaveUp_snoc {s : Settings} {ts : List Turn} {t : Turn} :
    GaveUp s (ts ++ [t]) ↔ GaveUp s ts ∨ ∃ now, t.op = .heartbeat now ∧ GivesUp s (connectTimes ts) now := by
  constructor
  · rintro ⟨p, t', q, now, hts, hop, hg⟩
    rcases List.eq_nil_or_concat q with rfl | ⟨q', u, rfl⟩
    · -- the step that gave up is the last one
      obtain ⟨rfl, ht⟩ := List.append_inj' hts rfl
      obtain rfl := List.singleton_inj.1 ht
      exact .inr ⟨now, hop, hg⟩
    · have hts' : ts ++ [t] = (p ++ t' :: q') ++ [u] := by simpa using hts
      obtain ⟨rfl, -⟩ := List.append_inj' hts' rfl
      exact .inl ⟨p, t', q', now, rfl, hop, hg⟩
  · rintro (⟨p, t', q, now, rfl, hop, hg⟩ | ⟨now, hop, hg⟩)
    · exact ⟨p, t', q ++ [t], now, by simp, hop, hg⟩
    · exact ⟨ts, t, [], now, rfl, hop, hg⟩

/-! ## What a connection started here keeps -/

/-- What a connection started here with `hail` keeps along turns `ts` since its creation that
bring no answer and no request: it wrote only its Connects, no more than its attempts and spaced
by the retry interval, its handshake record counts them, and it has given up exactly when a
periodic step gave up. -/
structure Calling (s : Settings) (hail : Bytes) (ts : List Turn) (x : Snap) : Prop where
  settings : x.shared.settings = s
  initiator : x.conn.initiator = true
  unasked : x.conn.Unasked
  localHail : x.conn.handshake.localHail = hail
  attempts : x.conn.handshake.attempts = (connectTimes ts).length
  last : x.conn.handshake.lastAttempt = (connectTimes ts).getLast?
  bounded : (connectTimes ts).length ≤ s.maxHandshakeAttempts
  spaced : (connectTimes ts).IsChain fun a b => s.handshakeRetry ≤ b - a
  wire : x.wire = (connectTimes ts).map fun _ => connectMessage s hail
  connecting : ¬GaveUp s ts → x.conn.status = .connecting
  closed : GaveUp s ts → x.conn.status = .disconnected

namespace Calling

variable {s : Settings} {hail : Bytes} {ts : List Turn} {x x' : Snap} {t : Turn}

theorem create {id : Nat} {r : Endpoint} {n t₀ : Nat} {sh : Shared}
    (hc : (Origin.outgoing id r n hail t₀).Creates sh x) : Calling sh.settings hail [] x := by
  obtain ⟨hh, hst, hi, hhs, -, -, -⟩ := Connection.create_spec rfl hc.1
  have hset := ((Origin.outgoing id r n hail t₀).create_traffic sh x.conn x.shared rfl hc.1).1
  refine ⟨hset, hi, ⟨by rw [hh]; rfl, by rw [hhs]⟩, by rw [hhs], by rw [hhs]; rfl, by rw [hhs]; rfl,
    Nat.zero_le _, .nil, by rw [hc.2]; rfl, fun _ => hst, ?_⟩
  -- no step has run yet
  rintro ⟨p, t, q, now, h, -⟩
  simp at h

theorem keep (hc : Calling s hail ts x) {w : Datagram.Writer} (hconn : x'.conn = { x.conn with writer := w })
    (hset : x'.shared.settings = x.shared.settings) (hw : x'.wire = x.wire) (hcn : t.connects = [])
    (hg : GaveUp s (ts ++ [t]) ↔ GaveUp s ts) : Calling s hail (ts ++ [t]) x' := by
  have hct : connectTimes (ts ++ [t]) = connectTimes ts := by
    rw [connectTimes_snoc, hcn, List.append_nil]
  obtain ⟨c', sh', wire'⟩ := x'
  dsimp only at hconn hset hw
  subst hconn hw
  refine ⟨hset.trans hc.settings, hc.initiator, ⟨hc.unasked.1, hc.unasked.2⟩, hc.localHail, ?_, ?_, ?_, ?_,
    ?_, fun h => hc.connecting (mt hg.2 h), fun h => hc.closed (hg.1 h)⟩ <;> rw [hct]
  exacts [hc.attempts, hc.last, hc.bounded, hc.spaced, hc.wire]

theorem connects_of_written {x x' : Snap} {now : Nat} {ms : List (Header × Bytes)} (hwire : x'.wire = x.wire ++ ms) :
    Turn.connects ⟨x, .heartbeat now, x'⟩ = (ms.filter (·.1.control = some .connect)).map fun _ => now := by
  rw [Turn.connects, Turn.written_eq (t := ⟨x, .heartbeat now, x'⟩) hwire]

theorem call (hc : Calling s hail ts x) {now : Nat} {ms : List (Header × Bytes)}
    (hdue : ∀ l ∈ x.conn.handshake.lastAttempt, s.handshakeRetry ≤ now - l)
    (hleft : x.conn.handshake.attempts < s.maxHandshakeAttempts) (hng : ¬GaveUp s ts)
    (hrun : (Connection.writeControl
      { x.conn with handshake := { x.conn.handshake with attempts := x.conn.handshake.attempts + 1,
                                                          lastAttempt := some now } }
      .connect (Payload.connect s.appId hail) now).run x.shared = .ok (x'.conn, x'.shared))
    (hwire : x'.wire = x.wire ++ ms)
    (hsent : Datagram.Writer.Writes x.conn.writer ms x'.conn.writer ∧ ∀ m ∈ ms, MessageWellFormed m) :
    Calling s hail (ts ++ [⟨x, .heartbeat now, x'⟩]) x' ∧ x'.conn.status = x.conn.status := by
  obtain ⟨h, w, hh, hw, hconn, hsh⟩ := Connection.writeControl_run hrun
  -- the writer took the Connect alone
  have hms : ms = [connectMessage s hail] := by
    obtain ⟨rfl, -⟩ := Header.ofControl_eq hh
    refine Datagram.Writer.Writes.unique hsent.1 ?_ hsent.2
      (by simpa [connectMessage] using Header.ofControl_wellFormed hh)
    rw [hconn]
    exact .single hw
  have hct : connectTimes (ts ++ [⟨x, .heartbeat now, x'⟩]) = connectTimes ts ++ [now] := by
    rw [connectTimes_snoc, connects_of_written hwire, hms]
    simp [connectMessage]
  have hng' : ¬GaveUp s (ts ++ [⟨x, .heartbeat now, x'⟩]) := by
    rw [gaveUp_snoc]
    rintro (h | ⟨_, -, hlen, -⟩)
    · exact hng h
    · rw [← hc.attempts] at hlen
      omega
  obtain ⟨c', sh', wire'⟩ := x'
  dsimp only at hconn hsh hwire
  subst hconn hsh hwire
  refine ⟨⟨hc.settings, hc.initiator, ⟨hc.unasked.1, hc.unasked.2⟩, hc.localHail, ?_, ?_, ?_, ?_, ?_,
    fun _ => hc.connecting hng, fun h => absurd h hng'⟩, rfl⟩ <;> rw [hct]
  · simp [hc.attempts]
  · simp
  · simpa [← hc.attempts] using Nat.succ_le_of_lt hleft
  · -- the new Connect comes the retry interval after the last
    refine hc.spaced.append (.singleton now) fun a ha b hb => ?_
    rw [List.head?_cons, Option.mem_some_iff] at hb
    subst hb
    exact hdue a (hc.last ▸ ha)
  · simp [hc.wire, hms]

theorem giveUp (hc : Calling s hail ts x) {now : Nat} {ms : List (Header × Bytes)}
    (hdue : ∀ l ∈ x.conn.handshake.lastAttempt, s.handshakeRetry ≤ now - l)
    (hspent : s.maxHandshakeAttempts ≤ x.conn.handshake.attempts) (hng : ¬GaveUp s ts)
    (hset : x'.shared.settings = x.shared.settings)
    (hrun : (x.conn.close "No answer from remote host").run x.shared = .ok (x'.conn, x'.shared))
    (hwire : x'.wire = x.wire ++ ms) (hsent : Datagram.Writer.Writes x.conn.writer ms x'.conn.writer) :
    Calling s hail (ts ++ [⟨x, .heartbeat now, x'⟩]) x' ∧
      Emits x.shared (statusNote x.shared x.conn .disconnected "No answer from remote host") x'.shared := by
  obtain ⟨hface, hwriter, hemits, -⟩ := Connection.close_run hrun
  obtain ⟨hi, hhs, hreq⟩ := Connection.close_handshake hrun
  have hms : ms = [] := by
    rw [hwriter] at hsent
    exact hsent.eq_nil
  have hct : connectTimes (ts ++ [⟨x, .heartbeat now, x'⟩]) = connectTimes ts := by
    rw [connectTimes_snoc, connects_of_written hwire, hms, List.filter_nil, List.map_nil, List.append_nil]
  have hgave : GaveUp s (ts ++ [⟨x, .heartbeat now, x'⟩]) :=
    gaveUp_snoc.2 (.inr ⟨now, rfl, by rw [← hc.attempts]; exact Nat.le_antisymm (hc.attempts ▸ hc.bounded) hspent,
      by rw [← hc.last]; exact hdue⟩)
  refine ⟨⟨hset.trans hc.settings, hi.trans hc.initiator, ⟨hreq.trans hc.unasked.1, hhs ▸ hc.unasked.2⟩,
    hhs ▸ hc.localHail, ?_, ?_, ?_, ?_, ?_, fun h => absurd hgave h,
    fun _ => (congrArg Face.status hface).trans (Face.close_status _)⟩, ?_⟩
  all_goals try rw [hct]
  · rw [hhs, hc.attempts]
  · rw [hhs, hc.last]
  · exact hc.bounded
  · exact hc.spaced
  · rw [hwire, hms, List.append_nil, hc.wire]
  · -- the connection was connecting, so closing releases the status event
    rwa [closeNote, if_neg (by rw [hc.connecting hng]; decide)] at hemits

theorem idle (hc : Calling s hail ts x) {now : Nat} {ms : List (Header × Bytes)}
    (hrun : (pure x.conn : Step Connection).run x.shared = .ok (x'.conn, x'.shared))
    (hwire : x'.wire = x.wire ++ ms) (hsent : Datagram.Writer.Writes x.conn.writer ms x'.conn.writer)
    (hg : GaveUp s (ts ++ [⟨x, .heartbeat now, x'⟩]) ↔ GaveUp s ts) :
    Calling s hail (ts ++ [⟨x, .heartbeat now, x'⟩]) x' ∧ x'.conn.status = x.conn.status := by
  obtain ⟨hconn, hsh⟩ := Prod.mk.inj (Except.ok.inj hrun)
  have hms : ms = [] := by
    rw [← hconn] at hsent
    exact hsent.eq_nil
  refine ⟨hc.keep (w := x.conn.writer) hconn.symm (by rw [hsh]) (by rw [hwire, hms, List.append_nil]) ?_ hg,
    by rw [hconn]⟩
  rw [connects_of_written hwire, hms, List.filter_nil, List.map_nil]

theorem turn (hc : Calling s hail ts x) {op : Op} (hq : op.Quiet) (ht : op.Turn x x') (hs : x.conn.Sound) :
    Calling s hail (ts ++ [⟨x, op, x'⟩]) x' ∧
      (x.conn.status = .connecting → x'.conn.status = .disconnected →
        Emits x.shared (statusNote x.shared x.conn .disconnected "No answer from remote host") x'.shared) := by
  have hset := (Op.Turn.history ht hs rfl).1
  obtain ⟨hrun, ms, hwire, hsent⟩ := ht
  -- a turn that keeps the status releases nothing to check
  have hkeep : x'.conn.status = x.conn.status → x.conn.status = .connecting → x'.conn.status = .disconnected →
      Emits x.shared (statusNote x.shared x.conn .disconnected "No answer from remote host") x'.shared := by
    intro h h₁ h₂
    rw [h, h₁] at h₂
    cases h₂
  cases op with
  | take =>
    obtain ⟨hconn, hsh⟩ := Prod.mk.inj (Except.ok.inj hrun)
    have hms : ms = [] := hsent
    refine ⟨hc.keep hconn.symm hset (by rw [hwire, hms, List.append_nil]) rfl ?_, hkeep (by rw [← hconn]; rfl)⟩
    rw [gaveUp_snoc]
    simp
  | heartbeat now =>
    have hsent' : Datagram.Writer.Writes x.conn.writer ms x'.conn.writer ∧ ∀ m ∈ ms, MessageWellFormed m := hsent
    simp only [Op.run] at hrun
    by_cases hg : GaveUp s ts
    · -- given up already: the step does nothing
      rw [Connection.heartbeat_disconnected hc.unasked (hc.closed hg)] at hrun
      obtain ⟨h₁, h₂⟩ := hc.idle hrun hwire hsent'.1 ⟨fun _ => hg, fun h => gaveUp_snoc.2 (.inl h)⟩
      exact ⟨h₁, hkeep h₂⟩
    rw [Connection.heartbeat_connecting hc.unasked (hc.connecting hg)] at hrun
    obtain rfl := hc.settings
    revert hrun
    refine Connection.handshakeHeartbeat_initiator hc.initiator
      (P := fun r => r = .ok (x'.conn, x'.shared) → Calling x.shared.settings hail (ts ++ [⟨x, .heartbeat now, x'⟩]) x' ∧
        (x.conn.status = .connecting → x'.conn.status = .disconnected →
          Emits x.shared (statusNote x.shared x.conn .disconnected "No answer from remote host") x'.shared))
      (fun l hl hwait hrun => ?_) (fun hdue hspent hrun => ?_) (fun hdue hleft hrun => ?_)
    · -- the last Connect is too recent: the step waits
      refine (fun h => ⟨h.1, hkeep h.2⟩) (hc.idle hrun hwire hsent'.1 ⟨fun h => ?_, fun h => gaveUp_snoc.2 (.inl h)⟩)
      rcases gaveUp_snoc.1 h with h | ⟨_, hop, -, hlast⟩
      · exact h
      · cases hop
        have := hlast l (by rw [← hc.last]; exact hl)
        omega
    · obtain ⟨h₁, h₂⟩ := hc.giveUp hdue hspent hg hset hrun hwire hsent'.1
      exact ⟨h₁, fun _ _ => h₂⟩
    · rw [hc.localHail] at hrun
      obtain ⟨h₁, h₂⟩ := hc.call hdue hleft hg hrun hwire hsent'
      exact ⟨h₁, hkeep h₂⟩
  | _ => exact hq.elim

theorem heartbeat_ok (hc : Calling s hail ts x) (hs : s.Sized) (hfit : x.conn.Fit s) (now : Nat) :
    ∃ c' sh', ((Op.heartbeat now).run x.conn).run x.shared = .ok (c', sh') := by
  simp only [Op.run]
  by_cases hg : GaveUp s ts
  · rw [Connection.heartbeat_disconnected hc.unasked (hc.closed hg)]
    exact ⟨_, _, rfl⟩
  rw [Connection.heartbeat_connecting hc.unasked (hc.connecting hg)]
  obtain rfl := hc.settings
  refine Connection.handshakeHeartbeat_initiator hc.initiator (P := fun r => ∃ c' sh', r = .ok (c', sh'))
    (fun _ _ _ => ⟨_, _, rfl⟩) (fun _ _ => Connection.close_ok _ _ _) (fun _ _ => ?_)
  -- the Connect fits one control payload
  obtain ⟨c', h⟩ := Connection.writeControl_ok hs (c := { x.conn with handshake := { x.conn.handshake with
    attempts := x.conn.handshake.attempts + 1, lastAttempt := some now } }) { hfit with } .connect
    (by rw [Payload.length_connect]; exact (hfit.initiator hc.initiator).1) now x.shared
  exact ⟨c', _, h⟩

end Calling

theorem Chain.calling {s : Settings} {hail : Bytes} {x x' : Snap} {ts₂ : List Turn} (h : Chain x ts₂ x')
    (hq : ∀ t ∈ ts₂, t.op.Quiet) : ∀ {ts₁ : List Turn}, x.conn.Sound → Calling s hail ts₁ x →
      x'.conn.Sound ∧ Calling s hail (ts₁ ++ ts₂) x' := by
  induction h with
  | nil => exact fun hs hc => ⟨hs, by rwa [List.append_nil]⟩
  | @cons t ts x' ht _ ih =>
    intro ts₁ hs hc
    have h₁ := (hc.turn (hq t List.mem_cons_self) ht hs).1
    have h₂ := ih (fun t' h' => hq t' (List.mem_cons_of_mem _ h')) (ht.cases hs).1 h₁
    simpa using h₂

theorem Run.calling {id : Nat} {r : Endpoint} {n t₀ : Nat} {hail : Bytes} {sh : Shared} {ts : List Turn}
    {x : Snap} (h : Run (.outgoing id r n hail t₀) sh ts x) (hq : ∀ t ∈ ts, t.op.Quiet) :
    Calling sh.settings hail ts x := by
  obtain ⟨x₀, hc, hch⟩ := h
  simpa using (hch.calling hq (Origin.create_spec hc.1).2.1 (Calling.create hc)).2


/-! ## The deadlines along runs -/

theorem Run.settings {o : Origin} {sh : Shared} {ts : List Turn} {x : Snap} (h : Run o sh ts x) :
    x.shared.settings = sh.settings :=
  (h.holds (fun hc => (o.create_traffic sh _ _ rfl hc.1).1) fun ht hs hi => (Op.Turn.history ht hs hi).1).2

theorem Run.calls_then_gives_up {id : Nat} {r : Endpoint} {n : Nat} {hail : Bytes} {t₀ : Nat} {sh : Shared}
    {ts : List Turn} {x : Snap} (h : Run (.outgoing id r n hail t₀) sh ts x) (hq : ∀ t ∈ ts, t.op.Quiet) :
    (connectTimes ts).length ≤ sh.settings.maxHandshakeAttempts ∧
      (connectTimes ts).IsChain (fun a b => sh.settings.handshakeRetry ≤ b - a) ∧
      x.wire = (connectTimes ts).map (fun _ => connectMessage sh.settings hail) ∧
      (x.conn.status = .disconnected ↔ GaveUp sh.settings ts) ∧
      (x.conn.status = .connecting ↔ ¬GaveUp sh.settings ts) ∧
      (∀ t ∈ ts, t.pre.conn.status = .connecting → t.post.conn.status = .disconnected →
        Emits t.pre.shared (statusNote t.pre.shared t.pre.conn .disconnected "No answer from remote host")
          t.post.shared) ∧
      (sh.settings.validate = .ok () → (Origin.outgoing id r n hail t₀).Allowed sh.settings →
        ∀ now, ∃ x', (Op.heartbeat now).Turn x x') := by
  have hc := h.calling hq
  refine ⟨hc.bounded, hc.spaced, hc.wire, ⟨fun hd => ?_, hc.closed⟩, ⟨fun hcn hg => ?_, hc.connecting⟩,
    fun t ht => ?_, fun hv ho now => ?_⟩
  · by_contra hg
    rw [hc.connecting hg] at hd
    cases hd
  · rw [hc.closed hg] at hcn
    cases hcn
  · -- the turn starts where a shorter run of the same kind ends
    obtain ⟨ts₁, ts₂, rfl, h₁, ht₁, -⟩ := h.split ht
    have hq₁ : ∀ t' ∈ ts₁, t'.op.Quiet := fun t' h' => hq t' (List.mem_append_left _ h')
    exact ((h₁.calling hq₁).turn (hq t ht) ht₁ h₁.sound).2
  · have hs := Settings.sized_of_validate hv
    have hfit := h.fit hs ho fun t ht => (hq t ht).allowed _
    obtain ⟨c', sh', hr⟩ := hc.heartbeat_ok hs hfit.conn now
    obtain ⟨_, ht⟩ := Op.turn_of_run h.sound hr
    exact ⟨_, ht⟩

theorem Run.acceptor_deadline {id : Nat} {r : Endpoint} {n : Nat} {hail : Bytes} {t₀ : Nat} {sh : Shared}
    {ts : List Turn} {x : Snap} (h : Run (.incoming id r n hail t₀) sh ts x)
    (hst : x.conn.status = .connecting) (hk : x.conn.KeptOpen)
    (hlim : sh.settings.handshakeRetry * sh.settings.maxHandshakeAttempts < Span.limit) :
    (∀ now x', (Op.heartbeat now).Turn x x' →
      (t₀ + sh.settings.handshakeRetry * sh.settings.maxHandshakeAttempts < now →
        x'.conn.status = .disconnected ∧
          Emits x.shared (statusNote x.shared x.conn .disconnected "Failed to complete handshake") x'.shared) ∧
      (now ≤ t₀ + sh.settings.handshakeRetry * sh.settings.maxHandshakeAttempts → x'.conn.status = .connecting)) ∧
    (sh.settings.validate = .ok () → (Origin.incoming id r n hail t₀).Allowed sh.settings →
      (∀ t ∈ ts, t.op.Allowed sh.settings) → ∀ now, ∃ x', (Op.heartbeat now).Turn x x') := by
  have hset := h.settings
  -- the deadline counts from the creation: no turn changes who started the connection or when
  have hbirth := h.birth
  have hi : x.conn.initiator = false := congrArg Prod.fst hbirth
  have hstart : x.conn.handshake.started = t₀ := congrArg Prod.snd hbirth
  refine ⟨fun now x' ht => ?_, fun hv ho hts now => ?_⟩
  · have hstep := Connection.heartbeat_acceptor hi hst hk (hset ▸ hlim) ht.1
    rwa [hstart, hset] at hstep
  · have hs := Settings.sized_of_validate hv
    obtain ⟨c', sh', hr⟩ := Connection.heartbeat_acceptor_ok hs (h.fit hs ho hts).conn hset hi hst hk hlim now
    obtain ⟨_, ht⟩ := Op.turn_of_run (o := .heartbeat now) h.sound hr
    exact ⟨_, ht⟩

/-- The handshake deadlines, over every run. A connection started here that hears no answer
and is asked nothing writes only Connects, at most its attempts, each at least the retry
interval after the one before; it is disconnected exactly when one of its periodic steps came
at least the retry interval after the last of all its attempts, and the turn that closes it
releases the reason "No answer from remote host". A connection accepted at `t₀` that is still
connecting, with nothing asked that closes it, is closed with "Failed to complete handshake" by
a periodic step exactly when the step comes more than the retry interval times the attempts
after `t₀`, when that product is a duration. With settings that pass validation, these periodic
steps run. -/
theorem handshake_deadlines (sh : Shared) :
    (∀ {id : Nat} {r : Endpoint} {n : Nat} {hail : Bytes} {t₀ : Nat} {ts : List Turn} {x : Snap},
      Run (.outgoing id r n hail t₀) sh ts x → (∀ t ∈ ts, t.op.Quiet) →
      (connectTimes ts).length ≤ sh.settings.maxHandshakeAttempts ∧
      (connectTimes ts).IsChain (fun a b => sh.settings.handshakeRetry ≤ b - a) ∧
      x.wire = (connectTimes ts).map (fun _ => connectMessage sh.settings hail) ∧
      (x.conn.status = .disconnected ↔ GaveUp sh.settings ts) ∧
      (x.conn.status = .connecting ↔ ¬GaveUp sh.settings ts) ∧
      (∀ t ∈ ts, t.pre.conn.status = .connecting → t.post.conn.status = .disconnected →
        Emits t.pre.shared (statusNote t.pre.shared t.pre.conn .disconnected "No answer from remote host")
          t.post.shared) ∧
      (sh.settings.validate = .ok () → (Origin.outgoing id r n hail t₀).Allowed sh.settings →
        ∀ now, ∃ x', (Op.heartbeat now).Turn x x')) ∧
    (∀ {id : Nat} {r : Endpoint} {n : Nat} {hail : Bytes} {t₀ : Nat} {ts : List Turn} {x : Snap},
      Run (.incoming id r n hail t₀) sh ts x → x.conn.status = .connecting → x.conn.KeptOpen →
      sh.settings.handshakeRetry * sh.settings.maxHandshakeAttempts < Span.limit →
      (∀ now x', (Op.heartbeat now).Turn x x' →
        (t₀ + sh.settings.handshakeRetry * sh.settings.maxHandshakeAttempts < now →
          x'.conn.status = .disconnected ∧
            Emits x.shared (statusNote x.shared x.conn .disconnected "Failed to complete handshake") x'.shared) ∧
        (now ≤ t₀ + sh.settings.handshakeRetry * sh.settings.maxHandshakeAttempts →
          x'.conn.status = .connecting)) ∧
      (sh.settings.validate = .ok () → (Origin.incoming id r n hail t₀).Allowed sh.settings →
        (∀ t ∈ ts, t.op.Allowed sh.settings) → ∀ now, ∃ x', (Op.heartbeat now).Turn x x')) :=
  ⟨fun h hq => h.calls_then_gives_up hq, fun h hst hk hlim => h.acceptor_deadline hst hk hlim⟩

theorem handshake_deadlines_default :
    (∃ ts x, Run (.outgoing 0 (.localhost 6000) 1200 [] 0) demoShared ts x ∧ (∀ t ∈ ts, t.op.Quiet) ∧
      ts.map Turn.op = [.heartbeat 0, .take, .heartbeat 1, .heartbeat 3000000000, .heartbeat 6000000000,
        .heartbeat 9000000000, .heartbeat 12000000000, .heartbeat 14999999999, .heartbeat 15000000000] ∧
      x.conn.status = .disconnected ∧ GaveUp demoShared.settings ts ∧ (connectTimes ts).length ≤ 5) ∧
    (∃ x, Run (.incoming 0 (.localhost 5000) 1200 [] 0) demoShared [] x ∧ x.conn.status = .connecting ∧
      x.conn.KeptOpen ∧ demoShared.settings.handshakeRetry * demoShared.settings.maxHandshakeAttempts < Span.limit ∧
      ∃ x', (Op.heartbeat 15000000001).Turn x x' ∧ x'.conn.status = .disconnected) := by
  have hdeadlines := handshake_deadlines demoShared
  constructor
  · obtain ⟨ts, x, hr, hops, hst⟩ := Run.of_runAll (.outgoing 0 (.localhost 6000) 1200 [] 0)
      [.heartbeat 0, .take, .heartbeat 1, .heartbeat 3000000000, .heartbeat 6000000000, .heartbeat 9000000000,
        .heartbeat 12000000000, .heartbeat 14999999999, .heartbeat 15000000000] demoShared
      (fun y => y.1.status) .disconnected (by decide +kernel)
    have hq : ∀ t ∈ ts, t.op.Quiet := by
      have hq' : ∀ o ∈ ts.map Turn.op, o.Quiet := by
        rw [hops]
        decide
      exact fun t ht => hq' _ (List.mem_map_of_mem ht)
    obtain ⟨hlen, -, -, hgave, -⟩ := hdeadlines.1 hr hq
    exact ⟨ts, x, hr, hq, hops, hst, hgave.1 hst, hlen⟩
  · obtain ⟨ts, x, hr, hops, hv⟩ := Run.of_runAll (.incoming 0 (.localhost 5000) 1200 [] 0) [] demoShared
      (fun y => (y.1.status, y.1.handle.disconnectRequest, y.1.handshake.awaitingApproval))
      (.connecting, none, false) (by decide +kernel)
    obtain rfl : ts = [] := List.map_eq_nil_iff.1 hops
    simp only [Prod.mk.injEq] at hv
    obtain ⟨hst, hreq, haw⟩ := hv
    have hk : x.conn.KeptOpen := ⟨hreq, fun h => absurd (haw.symm.trans h) Bool.false_ne_true⟩
    have hlim : demoShared.settings.handshakeRetry * demoShared.settings.maxHandshakeAttempts < Span.limit := by
      decide
    obtain ⟨hstep, hrun⟩ := hdeadlines.2 hr hst hk hlim
    obtain ⟨x', ht⟩ := hrun (by decide +kernel) (show 1200 ≤ demoShared.settings.maxPayload by decide)
      (fun _ h => absurd h List.not_mem_nil) 15000000001
    exact ⟨x, hr, hst, hk, hlim, x', ht, ((hstep _ _ ht).1 (by decide)).1⟩

def longRetry : Settings :=
  { appId := "test", handshakeRetry := Span.ofMillis (2 ^ 64 - 1), maxHandshakeAttempts := 1001 }

/-- Validation leaves the product of the retry interval and the attempts unchecked: under
`longRetry` a connection accepted at 0, connecting and asked nothing, stops with an overflow at
its periodic step at 1, long before any deadline, where it should keep waiting. -/
theorem handshake_deadline_overflows :
    longRetry.validate = .ok () ∧ Span.limit ≤ longRetry.handshakeRetry * longRetry.maxHandshakeAttempts ∧
      ∃ x, Run (.incoming 0 (.localhost 5000) 1200 [] 0) (Shared.create longRetry) [] x ∧
        x.conn.status = .connecting ∧ x.conn.KeptOpen ∧
        ((Op.heartbeat 1).run x.conn).run x.shared = .error .spanMulOverflow := by
  obtain ⟨ts, x, hr, hops, hv⟩ := Run.of_runAll (.incoming 0 (.localhost 5000) 1200 [] 0) [] (Shared.create longRetry)
    (fun y => (y.1.status, y.1.handle.disconnectRequest, y.1.handshake.awaitingApproval))
    (.connecting, none, false) (by decide +kernel)
  obtain rfl : ts = [] := List.map_eq_nil_iff.1 hops
  simp only [Prod.mk.injEq] at hv
  obtain ⟨hst, hreq, haw⟩ := hv
  have hk : x.conn.KeptOpen := ⟨hreq, fun h => absurd (haw.symm.trans h) Bool.false_ne_true⟩
  have hover : Span.limit ≤ longRetry.handshakeRetry * longRetry.maxHandshakeAttempts := by decide
  refine ⟨by decide +kernel, hover, x, hr, hst, hk, ?_⟩
  exact Connection.heartbeat_acceptor_overflows (congrArg Prod.fst hr.birth) hst hk (by rw [hr.settings]; exact hover)

end ReliableUdp
