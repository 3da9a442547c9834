import ReliableUdp.Proofs.Lifecycle.Steps
import ReliableUdp.Proofs.Lifecycle.Laws

/-!
# Runs of a connection

A connection is created and then goes through turns; a `Snap` is what the laws watch after each.
Every turn but a request or a take leads along a path of moves, so each law of
`Lifecycle.Laws` holds along every run.
-/

namespace ReliableUdp

inductive HandleRequest where
  | send (method : Delivery) (channel : Nat) (data : Bytes) (priority : Priority)
  | approve
  | approveWith (hail : Bytes)
  | deny (reason : String)
  | disconnect (reason : String)

def HandleRequest.run : HandleRequest → Connection → Step Connection
  | .send m ch data p, c =>
    match Kind.user? m ch with
    | some kind => do
      let payload ← Step.withPool (·.enqueue data)
      pure { c with handle := c.handle.enqueue { payload, kind } p }
    | none => pure c
  | .approve, c => pure { c with handle := c.handle.approve }
  | .approveWith hail, c => pure { c with handle := ((c.handle.approveWith hail).toOption).getD c.handle }
  | .deny r, c => pure { c with handle := ((c.handle.deny r).toOption).getD c.handle }
  | .disconnect r, c => pure { c with handle := ((c.handle.requestDisconnect r).toOption).getD c.handle }

/-- What can happen to a connection. -/
inductive Op where
  | heartbeat (now : Nat)
  | receive (h : Header) (p : Bytes) (now : Nat)
  | disconnect (reason : String) (now : Nat)
  | finishDisconnect (reason : String) (now : Nat)
  | close (reason : String)
  | forciblyClosed
  | request (q : HandleRequest)
  | take

namespace Op

def run : Op → Connection → Step Connection
  | .heartbeat now, c => c.heartbeat now
  | .receive h p now, c => c.onMessage h p now
  | .disconnect r now, c => c.disconnect r now
  | .finishDisconnect r now, c => c.finishDisconnect r now
  | .close r, c => c.close r
  | .forciblyClosed, c => c.forciblyClosed
  | .request q, c => q.run c
  | .take, c => pure c.takeDatagrams.2

def cause : Op → Cause
  | .heartbeat _ => .tick
  | .receive h p _ => .message h p
  | .disconnect r _ | .finishDisconnect r _ | .close r => .call r
  | .forciblyClosed => .call "Connection forcibly closed"
  | .request _ | .take => .tick

def Moves : Op → Prop
  | .request _ | .take => False
  | _ => True

def Sent : Op → Datagram.Writer → List (Header × Bytes) → Datagram.Writer → Prop
  | .take, _, ms, _ => ms = []
  | _, w, ms, w' => Datagram.Writer.Writes w ms w' ∧ ∀ m ∈ ms, MessageWellFormed m

end Op

/-- A connection as the laws watch it: the connection, the state it shares, and every message
it has written, oldest first. -/
structure Snap where
  conn : Connection
  shared : Shared
  wire : List (Header × Bytes)

def Op.Turn (o : Op) (s s' : Snap) : Prop :=
  (o.run s.conn).run s.shared = .ok (s'.conn, s'.shared) ∧
    ∃ ms, s'.wire = s.wire ++ ms ∧ o.Sent s.conn.writer ms s'.conn.writer

structure Turn where
  pre : Snap
  op : Op
  post : Snap

inductive Chain : Snap → List Turn → Snap → Prop
  | nil (s : Snap) : Chain s [] s
  | cons {t : Turn} {ts : List Turn} {s' : Snap} :
      t.op.Turn t.pre t.post → Chain t.post ts s' → Chain t.pre (t :: ts) s'

/-- How a connection comes to be: started here with its hail, or accepted from a remote
Connect with the hail it carried. -/
inductive Origin where
  | outgoing (id : Nat) (remote : Endpoint) (maxPayload : Nat) (hail : Bytes) (now : Nat)
  | incoming (id : Nat) (remote : Endpoint) (maxPayload : Nat) (hail : Bytes) (now : Nat)

namespace Origin

def create : Origin → Step Connection
  | .outgoing id r n hail now => Connection.outgoing (Handle.create id r n) hail now
  | .incoming id r n hail now => Connection.incoming (Handle.create id r n) hail now

def Creates (o : Origin) (sh : Shared) (s : Snap) : Prop :=
  o.create.run sh = .ok (s.conn, s.shared) ∧ s.wire = []

end Origin

/-- A run: a connection created from `o` in `sh`, then the turns `ts`, ending in `s`. -/
def Run (o : Origin) (sh : Shared) (ts : List Turn) (s : Snap) : Prop :=
  ∃ s₀, o.Creates sh s₀ ∧ Chain s₀ ts s

/-! ## Requests -/

namespace Handle

variable {h h' : Handle}

theorem mem_outbound_enqueue {q q' : Queued} {p : Priority} (hq : q' ∈ (h.enqueue q p).outbound) :
    q' ∈ h.outbound ∨ q' = q := by
  cases p <;> simp_all [enqueue, outbound] <;> tauto

theorem eq_of_check {n : Nat} {x : Handle} (hc : (h.check n >>= fun _ => pure x : Except Fault Handle) = .ok h') :
    h' = x := by
  unfold check at hc
  split at hc
  · cases hc
  · cases hc
    rfl

structure Keeps (h h' : Handle) : Prop where
  status : h'.status = h.status
  remoteHail : h'.remoteHail = h.remoteHail
  id : h'.id = h.id
  remote : h'.remote = h.remote

theorem keeps_of_result {x : Except Fault Handle} {y : Option Decision} {z : Option String}
    (hx : ∀ h'', x = .ok h'' → h'' = { h with decision := y } ∨ h'' = { h with disconnectRequest := z })
    (he : h' = x.toOption.getD h) : Keeps h h' ∧ h'.outbound = h.outbound := by
  subst he
  cases x with
  | ok h'' => rcases hx h'' rfl with rfl | rfl <;> exact ⟨⟨rfl, rfl, rfl, rfl⟩, rfl⟩
  | error => exact ⟨⟨rfl, rfl, rfl, rfl⟩, rfl⟩

end Handle

theorem HandleRequest.run_spec {q : HandleRequest} {c c' : Connection} {sh sh' : Shared}
    (hr : (q.run c).run sh = .ok (c', sh')) :
    Handle.Keeps c.handle c'.handle ∧ c'.handshake = c.handshake ∧ c'.status = c.status ∧
      c'.initiator = c.initiator ∧ c'.writer = c.writer ∧ sh'.released = sh.released ∧
      (c.Sound → c'.Sound) := by
  cases q with
  | send m ch data p =>
    simp only [HandleRequest.run] at hr
    split at hr
    · rename_i kind hk
      obtain ⟨_, _, h₁, h₂⟩ := Step.run_bind_ok hr
      cases h₁
      cases h₂
      refine ⟨⟨by cases p <;> rfl, by cases p <;> rfl, by cases p <;> rfl, by cases p <;> rfl⟩,
        rfl, rfl, rfl, rfl, rfl, fun hc => ⟨fun q hq => ?_, hc.stored, hc.group⟩⟩
      rcases Handle.mem_outbound_enqueue hq with hq | rfl
      · exact hc.queued q hq
      · unfold Kind.user? at hk
        split at hk
        · cases hk
          exact ⟨⟨m, ch, rfl, by assumption⟩, by simp [Queued.tag]⟩
        · cases hk
    · cases hr
      exact ⟨⟨rfl, rfl, rfl, rfl⟩, rfl, rfl, rfl, rfl, rfl, id⟩
  | approve =>
    cases hr
    exact ⟨⟨rfl, rfl, rfl, rfl⟩, rfl, rfl, rfl, rfl, rfl, fun hc => hc.frame rfl rfl rfl⟩
  | approveWith hail =>
    cases hr
    obtain ⟨hk, ho⟩ := Handle.keeps_of_result (x := c.handle.approveWith hail) (y := some (.approve hail)) (z := none)
      (fun h'' hx => by
        unfold Handle.approveWith at hx
        exact .inl (Handle.eq_of_check hx)) rfl
    exact ⟨hk, rfl, rfl, rfl, rfl, rfl, fun hc => hc.frame ho rfl rfl⟩
  | deny r =>
    cases hr
    obtain ⟨hk, ho⟩ := Handle.keeps_of_result (x := c.handle.deny r) (y := some (.deny r)) (z := none)
      (fun h'' hx => by
        unfold Handle.deny at hx
        exact .inl (Handle.eq_of_check hx)) rfl
    exact ⟨hk, rfl, rfl, rfl, rfl, rfl, fun hc => hc.frame ho rfl rfl⟩
  | disconnect r =>
    cases hr
    obtain ⟨hk, ho⟩ := Handle.keeps_of_result (x := c.handle.requestDisconnect r) (y := none) (z := some r)
      (fun h'' hx => by
        unfold Handle.requestDisconnect at hx
        exact .inr (Handle.eq_of_check hx)) rfl
    exact ⟨hk, rfl, rfl, rfl, rfl, rfl, fun hc => hc.frame ho rfl rfl⟩

theorem Connection.face_of_keeps {c c' : Connection} (hk : Handle.Keeps c.handle c'.handle)
    (hh : c'.handshake = c.handshake) (hs : c'.status = c.status) (hi : c'.initiator = c.initiator) :
    c'.face = { c.face with decision := c'.face.decision } := by
  simp only [Connection.face, hk.status, hk.remoteHail, hk.id, hk.remote, hh, hs, hi]

/-! ## Turns -/

namespace Op

variable {o : Op} {c : Connection} {s s' : Snap}

theorem leads (ho : o.Moves) : Leads o.cause c (o.run c) id fun _ => True := by
  cases o with
  | heartbeat => exact Connection.heartbeat_leads.mono fun _ _ => trivial
  | receive => exact Connection.onMessage_leads
  | disconnect => exact Connection.disconnect_leads rfl rfl
  | finishDisconnect r => exact (Connection.finishDisconnect_leads (κ := .call r) rfl).mono fun _ _ => trivial
  | close r => exact (Connection.close_leads (κ := .call r) rfl).mono fun _ _ => trivial
  | forciblyClosed =>
    unfold run Connection.forciblyClosed
    exact (Connection.close_leads (κ := .call _) rfl).mono fun _ _ => trivial
  | request | take => exact ho.elim

theorem Turn.cases (ht : o.Turn s s') (hs : s.conn.Sound) :
    s'.conn.Sound ∧
      ((o.Moves ∧ ∃ E M, Path o.cause s.conn s.shared E M s'.conn s'.shared ∧ s'.wire = s.wire ++ M) ∨
        (¬o.Moves ∧ s'.conn.face = { s.conn.face with decision := s'.conn.face.decision } ∧
          s'.shared.released = s.shared.released ∧ s'.wire = s.wire)) := by
  obtain ⟨hrun, ms, hwire, hsent⟩ := ht
  by_cases ho : o.Moves
  · obtain ⟨-, hs', E, M, hp⟩ := leads ho hs _ _ _ hrun
    -- the messages the writer took are those the path wrote
    have hsent' : Datagram.Writer.Writes s.conn.writer ms s'.conn.writer ∧ ∀ m ∈ ms, MessageWellFormed m := by
      cases o <;> first | exact ho.elim | exact hsent
    have hms := Datagram.Writer.Writes.unique hsent'.1 hp.writes.1 hsent'.2 hp.writes.2
    exact ⟨hs', .inl ⟨ho, E, M, hp, hms ▸ hwire⟩⟩
  · cases o with
    | request q =>
      obtain ⟨hk, hh, hst, hi, hw, hr, hsound⟩ := HandleRequest.run_spec hrun
      have hnil : ms = [] := Datagram.Writer.Writes.eq_nil (hw ▸ hsent.1)
      exact ⟨hsound hs, .inr ⟨ho, Connection.face_of_keeps hk hh hst hi, hr, by rw [hwire, hnil]; simp⟩⟩
    | take =>
      obtain ⟨hc, hsh⟩ := Prod.mk.inj (Except.ok.inj hrun)
      rw [← hc, ← hsh]
      refine ⟨hs.frame rfl rfl rfl, .inr ⟨ho, rfl, rfl, ?_⟩⟩
      rw [hwire, show ms = [] from hsent]
      simp
    | _ => exact absurd trivial ho

theorem heartbeat_denies {now : Nat} (ht : (Op.heartbeat now).Turn s s') (hs : s.conn.Sound)
    (ha : s.conn.face.awaiting = true) (hd : ∃ r, s.conn.face.decision = some (.deny r)) :
    s'.conn.status = .disconnected :=
  (Connection.heartbeat_leads hs _ _ _ ht.1).1 ha hd

theorem Turn.face_trace (ht : o.Turn s s') (hs : s.conn.Sound) :
    ∃ f, Relation.ReflTransGen (Face.Step o.cause) s.conn.face f ∧
      s'.conn.face = { f with decision := s'.conn.face.decision } := by
  rcases (ht.cases hs).2 with ⟨-, E, M, hp, -⟩ | ⟨-, hf, -, -⟩
  · exact ⟨_, hp.faces, rfl⟩
  · exact ⟨_, .refl, hf⟩

theorem Turn.rank_le (ht : o.Turn s s') (hs : s.conn.Sound) :
    s.conn.status.rank ≤ s'.conn.status.rank := by
  obtain ⟨f, hf, hface⟩ := ht.face_trace hs
  have hst : s'.conn.status = f.status := congrArg Face.status hface
  rw [hst]
  exact Face.rank_le_of_trace hf

theorem turn_of_run {c : Connection} {sh : Shared} (hs : s.conn.Sound)
    (hr : (o.run s.conn).run s.shared = .ok (c, sh)) : ∃ ms, o.Turn s ⟨c, sh, s.wire ++ ms⟩ := by
  by_cases ho : o.Moves
  · obtain ⟨-, -, E, M, hp⟩ := leads ho hs _ _ _ hr
    refine ⟨M, hr, M, rfl, ?_⟩
    cases o <;> first | exact ho.elim | exact hp.writes
  · refine ⟨[], hr, [], rfl, ?_⟩
    cases o with
    | request q => exact ⟨(HandleRequest.run_spec hr).2.2.2.2.1 ▸ .nil _, by simp⟩
    | take => rfl
    | _ => exact absurd trivial ho

def runAll : List Op → Connection → Step Connection
  | [], c => pure c
  | o :: os, c => o.run c >>= runAll os

end Op

/-! ## Creation -/

theorem SendWindow.holds_fresh {P : Queued → Prop} (n : Nat) : ({ window := n } : SendWindow).Holds P := by
  intro l hl s hs
  obtain ⟨-, rfl⟩ := Array.mem_replicate.1 hl
  cases hs

namespace Connection

variable {sh sh' : Shared} {c : Connection}

theorem create_spec {h : Handle} {i : Bool} {hs : Handshake} {now : Nat} (hq : h.outbound = [])
    (hr : (Connection.create h i hs now).run sh = .ok (c, sh')) :
    c.handle = { h with status := .connecting } ∧ c.status = .connecting ∧ c.initiator = i ∧
      c.handshake = hs ∧ c.Sound ∧ c.writer.content = [] ∧ Emits sh (statusNote sh c .connecting "") sh' := by
  obtain ⟨_, sh₁, h₁, h₂⟩ := Step.run_bind_ok hr
  cases h₁
  rcases setStatus_run h₂ with ⟨he, -, -⟩ | ⟨-, rfl, rfl⟩
  · cases he
  have hnone : ∀ q, q ∉ h.outbound := by simp [hq]
  exact ⟨rfl, rfl, rfl, rfl, ⟨fun q hm => absurd hm (hnone q), SendWindow.holds_fresh _, by simp⟩, rfl,
    emits_statusChanged ..⟩

end Connection

namespace Origin

variable {o : Origin} {sh sh' : Shared} {c : Connection}

def face (o : Origin) (s : Settings) : Face :=
  match o with
  | .outgoing id r _ hail _ =>
    { status := .connecting, shown := .connecting, initiator := true, awaiting := false,
      responded := false, localHail := hail, remoteHail := [], decision := none, id, remote := r }
  | .incoming id r _ hail _ =>
    { status := .connecting, shown := .connecting, initiator := false,
      awaiting := s.connectionApproval, responded := false, localHail := [], remoteHail := hail,
      decision := none, id, remote := r }

theorem create_spec (hr : o.create.run sh = .ok (c, sh')) :
    c.face = o.face sh.settings ∧ c.Sound ∧ c.writer.content = [] ∧
      sh'.released.enabled = sh.released.enabled ∧
      ∃ E, sh'.released.events = sh.released.events ++ E ∧ (∀ ev ∈ E, ¬ev.IsData) ∧
        (Notify.has sh.released.enabled Notify.status = true → notes E = [(.connecting, "")]) := by
  cases o with
  | outgoing id r n hail now =>
    obtain ⟨hh, hst, hi, hhs, hsound, hw, hen, hev⟩ := Connection.create_spec rfl hr
    refine ⟨?_, hsound, hw, hen, _, hev, fun _ hm => not_data_of_statusNote hm,
      fun hon => notes_statusNote _ _ _ hon⟩
    simp only [Connection.face, hh, hst, hi, hhs]
    rfl
  | incoming id r n hail now =>
    unfold create Connection.incoming at hr
    obtain ⟨_, sh₁, h₁, h₂⟩ := Step.run_bind_ok hr
    cases h₁
    dsimp only at h₂
    split at h₂
    · -- the application is asked first: the request for approval, then the status event
      obtain ⟨_, sh₂, h₂, h₃⟩ := Step.run_bind_ok h₂
      cases h₂
      obtain ⟨hh, hst, hi, hhs, hsound, hw, hen, hev⟩ := Connection.create_spec rfl h₃
      refine ⟨?_, hsound, hw, hen, _, hev.trans (List.append_assoc ..), ?_, fun hon => ?_⟩
      · simp only [Connection.face, hh, hst, hi, hhs]
        rfl
      · intro ev hm
        rcases List.mem_append.1 hm with hm | hm
        · rw [List.mem_singleton.1 hm]
          rintro ⟨_, _, ⟨⟩⟩
        · exact not_data_of_statusNote hm
      · -- the request for approval shares the settings of notifications
        rw [notes_append, notes_statusNote _ _ _ ?_]
        · rfl
        · exact hon
    · obtain ⟨hh, hst, hi, hhs, hsound, hw, hen, hev⟩ := Connection.create_spec rfl h₂
      refine ⟨?_, hsound, hw, hen, _, hev, fun _ hm => not_data_of_statusNote hm,
        fun hon => notes_statusNote _ _ _ hon⟩
      simp only [Connection.face, hh, hst, hi, hhs]
      rfl

end Origin

/-! ## Chains and runs -/

namespace Chain

variable {s s₁ s' : Snap} {ts ts' : List Turn}

theorem append (h₁ : Chain s ts s₁) (h₂ : Chain s₁ ts' s') : Chain s (ts ++ ts') s' := by
  induction h₁ with
  | nil => exact h₂
  | cons ht _ ih => exact .cons ht (ih h₂)

theorem split {t : Turn} (h : Chain s ts s') (ht : t ∈ ts) :
    ∃ ts₁ ts₂, ts = ts₁ ++ t :: ts₂ ∧ Chain s ts₁ t.pre ∧ t.op.Turn t.pre t.post ∧ Chain t.post ts₂ s' := by
  induction h with
  | nil => cases ht
  | @cons t₀ _ _ h₀ hrest ih =>
    rcases List.mem_cons.1 ht with rfl | ht
    · exact ⟨[], _, rfl, .nil _, h₀, hrest⟩
    · obtain ⟨ts₁, ts₂, rfl, h₁, h₂, h₃⟩ := ih ht
      exact ⟨t₀ :: ts₁, ts₂, rfl, .cons h₀ h₁, h₂, h₃⟩

theorem holds_while {P : Turn → Prop} {I : Snap → Prop}
    (hstep : ∀ {t : Turn}, P t → t.op.Turn t.pre t.post → t.pre.conn.Sound → I t.pre → I t.post)
    (h : Chain s ts s') (hP : ∀ t ∈ ts, P t) (hs : s.conn.Sound) (hi : I s) :
    s'.conn.Sound ∧ I s' := by
  induction h with
  | nil => exact ⟨hs, hi⟩
  | @cons t _ _ ht _ ih =>
    exact ih (fun t' h' => hP t' (List.mem_cons_of_mem _ h')) (ht.cases hs).1
      (hstep (hP t List.mem_cons_self) ht hs hi)

theorem holds {I : Snap → Prop}
    (hstep : ∀ {o : Op} {s s' : Snap}, o.Turn s s' → s.conn.Sound → I s → I s')
    (h : Chain s ts s') (hs : s.conn.Sound) (hi : I s) : s'.conn.Sound ∧ I s' :=
  h.holds_while (P := fun _ => True) (fun _ ht hs hi => hstep ht hs hi) (fun _ _ => trivial) hs hi

theorem sound (h : Chain s ts s') (hs : s.conn.Sound) : s'.conn.Sound :=
  (h.holds (I := fun _ => True) (fun _ _ _ => trivial) hs trivial).1

theorem disconnected (h : Chain s ts s') (hs : s.conn.Sound) (hd : s.conn.status = .disconnected) :
    s'.conn.status = .disconnected :=
  (h.holds (I := fun s => s.conn.status = .disconnected)
    (fun ht hs hd => Status.eq_disconnected_of_rank (hd ▸ ht.rank_le hs)) hs hd).2

end Chain

namespace Run

variable {o : Origin} {sh : Shared} {ts : List Turn} {s : Snap}

theorem holds {I : Snap → Prop} (h₀ : ∀ {s₀ : Snap}, o.Creates sh s₀ → I s₀)
    (hstep : ∀ {o : Op} {s s' : Snap}, o.Turn s s' → s.conn.Sound → I s → I s')
    (h : Run o sh ts s) : s.conn.Sound ∧ I s := by
  obtain ⟨s₀, hc, hch⟩ := h
  exact hch.holds hstep (Origin.create_spec hc.1).2.1 (h₀ hc)

theorem sound (h : Run o sh ts s) : s.conn.Sound :=
  (h.holds (I := fun _ => True) (fun _ => trivial) fun _ _ _ => trivial).1

theorem split {t : Turn} (h : Run o sh ts s) (ht : t ∈ ts) :
    ∃ ts₁ ts₂, ts = ts₁ ++ t :: ts₂ ∧ Run o sh ts₁ t.pre ∧ t.op.Turn t.pre t.post ∧ Chain t.post ts₂ s := by
  obtain ⟨s₀, hc, hch⟩ := h
  obtain ⟨ts₁, ts₂, hts, h₁, h₂, h₃⟩ := hch.split ht
  exact ⟨ts₁, ts₂, hts, ⟨s₀, hc, h₁⟩, h₂, h₃⟩

theorem turns {I : Snap → Prop} (h₀ : ∀ {s₀ : Snap}, o.Creates sh s₀ → I s₀)
    (hstep : ∀ {o : Op} {s s' : Snap}, o.Turn s s' → s.conn.Sound → I s → I s')
    (h : Run o sh ts s) : ∀ t ∈ ts, t.op.Turn t.pre t.post ∧ t.pre.conn.Sound ∧ I t.pre := by
  intro t ht
  obtain ⟨_, _, -, h₁, ht₁, -⟩ := h.split ht
  exact ⟨ht₁, h₁.holds h₀ hstep⟩

theorem snoc {op : Op} {s' : Snap} (h : Run o sh ts s) (ht : op.Turn s s') :
    Run o sh (ts ++ [⟨s, op, s'⟩]) s' := by
  obtain ⟨s₀, hc, hch⟩ := h
  exact ⟨s₀, hc, hch.append (.cons (t := ⟨s, op, s'⟩) ht (.nil _))⟩

end Run

/-! ## Runs on given operations -/

theorem Chain.of_runAll {os : List Op} {s : Snap} {c : Connection} {sh : Shared} (hs : s.conn.Sound)
    (h : (Op.runAll os s.conn).run s.shared = .ok (c, sh)) :
    ∃ ts s', Chain s ts s' ∧ ts.map Turn.op = os ∧ s'.conn = c ∧ s'.shared = sh := by
  induction os generalizing s with
  | nil =>
    obtain ⟨hc, hsh⟩ := Prod.mk.inj (Except.ok.inj h)
    exact ⟨[], s, .nil s, rfl, hc, hsh⟩
  | cons o os ih =>
    obtain ⟨c₁, sh₁, h₁, h₂⟩ := Step.run_bind_ok h
    obtain ⟨ms, ht⟩ := Op.turn_of_run hs h₁
    obtain ⟨ts, s', hch, hops, hc, hsh⟩ := ih (s := ⟨c₁, sh₁, s.wire ++ ms⟩) (ht.cases hs).1 h₂
    exact ⟨⟨s, o, _⟩ :: ts, s', .cons (t := ⟨s, o, _⟩) ht hch, by simp [hops], hc, hsh⟩

theorem Chain.of_run {β : Type} {x : Step Connection} {sh : Shared} {s : Snap}
    (hx : x.run sh = .ok (s.conn, s.shared)) (hs : s.conn.Sound) (os : List Op)
    (f : Connection × Shared → β) (v : β) (h : ((x >>= Op.runAll os).run sh).toOption.map f = some v) :
    ∃ ts s', Chain s ts s' ∧ ts.map Turn.op = os ∧
      (x >>= Op.runAll os).run sh = .ok (s'.conn, s'.shared) ∧ f (s'.conn, s'.shared) = v := by
  cases hr : (x >>= Op.runAll os).run sh with
  | error => rw [hr] at h; cases h
  | ok r =>
    rw [hr] at h
    obtain ⟨c₀, sh₀, h₀, h₁⟩ := Step.run_bind_ok hr
    rw [hx] at h₀
    obtain ⟨rfl, rfl⟩ := Prod.mk.inj (Except.ok.inj h₀)
    obtain ⟨ts, s', hch, hops, hc, hsh⟩ := Chain.of_runAll hs h₁
    refine ⟨ts, s', hch, hops, ?_, ?_⟩
    · rw [hc, hsh]
    · rw [hc, hsh]
      exact Option.some.inj h

theorem Origin.creates_of_isOk {o : Origin} {sh : Shared} (h : (o.create.run sh).isOk = true) :
    ∃ s, o.Creates sh s := by
  cases hr : o.create.run sh with
  | error => rw [hr] at h; cases h
  | ok r => exact ⟨⟨r.1, r.2, []⟩, hr, rfl⟩

theorem Run.of_runAll {β : Type} (o : Origin) (os : List Op) (sh : Shared) (f : Connection × Shared → β)
    (v : β) (h : ((o.create >>= Op.runAll os).run sh).toOption.map f = some v) :
    ∃ ts s, Run o sh ts s ∧ ts.map Turn.op = os ∧ f (s.conn, s.shared) = v := by
  cases hr : (o.create >>= Op.runAll os).run sh with
  | error => rw [hr] at h; cases h
  | ok r =>
    obtain ⟨c₀, sh₀, h₀, -⟩ := Step.run_bind_ok hr
    obtain ⟨ts, s, hch, hops, -, hv⟩ :=
      Chain.of_run (s := ⟨c₀, sh₀, []⟩) h₀ (Origin.create_spec h₀).2.1 os f v h
    exact ⟨ts, s, ⟨_, ⟨h₀, rfl⟩, hch⟩, hops, hv⟩

theorem Chain.written {s s' : Snap} {ts : List Turn} (h : Chain s ts s') (hts : Op.take ∉ ts.map Turn.op) :
    ∃ W, s'.wire = s.wire ++ W ∧
      s'.conn.writer.content = s.conn.writer.content ++ Datagram.Writer.encoding W ∧
      ∀ m ∈ W, MessageWellFormed m := by
  induction h with
  | nil => exact ⟨[], by simp, by simp [Datagram.Writer.encoding], by simp⟩
  | @cons t _ _ ht _ ih =>
    have hne : t.op ≠ .take := by
      intro he
      apply hts
      rw [List.map_cons, he]
      exact List.mem_cons_self
    obtain ⟨W, hW, hc, hwf⟩ := ih fun hm => hts (List.mem_cons_of_mem _ hm)
    obtain ⟨-, ms, hwire, hsent⟩ := ht
    have hsent' : Datagram.Writer.Writes t.pre.conn.writer ms t.post.conn.writer ∧
        ∀ m ∈ ms, MessageWellFormed m := by
      cases ho : t.op with
      | take => exact absurd ho hne
      | _ => rw [ho] at hsent; exact hsent
    refine ⟨ms ++ W, by rw [hW, hwire, List.append_assoc], ?_, fun m hm => ?_⟩
    · rw [hc, hsent'.1.content, Datagram.Writer.encoding_append, List.append_assoc]
    · rcases List.mem_append.1 hm with hm | hm
      · exact hsent'.2 m hm
      · exact hwf m hm

theorem Chain.wire_eq {s s' : Snap} {ts : List Turn} {L : List (Header × Bytes)} (h : Chain s ts s')
    (hts : Op.take ∉ ts.map Turn.op) (hL : ∀ m ∈ L, MessageWellFormed m)
    (hc : s'.conn.writer.content = s.conn.writer.content ++ Datagram.Writer.encoding L) :
    s'.wire = s.wire ++ L := by
  obtain ⟨W, hW, hcW, hwf⟩ := h.written hts
  rw [hW, Datagram.Writer.encoding_inj hwf hL (List.append_cancel_left (hcW.symm.trans hc))]

theorem Chain.wire_eq_control {s s' : Snap} {ts : List Turn} {k : Control} {h : Header} {p : Bytes}
    (hch : Chain s ts s') (hts : Op.take ∉ ts.map Turn.op)
    (hc : s'.conn.writer.content = s.conn.writer.content ++ Datagram.Writer.encoding [(h, p)])
    (hh : Header.ofControl k p.length = .ok h) : s'.wire = s.wire ++ [(h, p)] :=
  hch.wire_eq hts (by simpa using Header.ofControl_wellFormed hh) hc

end ReliableUdp
