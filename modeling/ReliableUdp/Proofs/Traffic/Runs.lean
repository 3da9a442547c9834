import ReliableUdp.Proofs.Traffic.Steps
import ReliableUdp.Proofs.Lifecycle.Runs
import ReliableUdp.Proofs.Safety.Runs

/-!
# The acts of a run

Every turn but a take makes the acts of the function it runs, so a whole run is a history of
acts from the connection just created (`Run.history`).
-/

namespace ReliableUdp

def Traffic.fresh : Traffic := ⟨[], [], [], [], Array.replicate Kind.count default, .connecting⟩

def HandleRequest.queues : HandleRequest → List (Kind × Priority × Bytes)
  | .send m ch data p =>
    match Kind.user? m ch with
    | some kind => [(kind, p, data)]
    | none => []
  | _ => []

namespace Op

def arrivals : Op → Connection → List (Seq × Nat)
  | .receive h _ _, c => if c.takesIn h then h.ackEntry else []
  | _, _ => []

def queues : Op → List (Kind × Priority × Bytes)
  | .request q => q.queues
  | _ => []

end Op

def Turn.arrivals (t : Turn) : List (Seq × Nat) := t.op.arrivals t.pre.conn

def Turn.queues (t : Turn) : List (Kind × Priority × Bytes) := t.op.queues

/-! ## Requests and operations -/

namespace Connection

variable {s : Settings} {c : Connection}

theorem traffic_of_result {x : Except Fault Handle} {y : Option Decision} {z : Option String}
    (hx : ∀ h, x = .ok h → h = { c.handle with decision := y } ∨ h = { c.handle with disconnectRequest := z }) :
    ({ c with handle := x.toOption.getD c.handle } : Connection).traffic = c.traffic := by
  cases x with
  | ok h => rcases hx h rfl with rfl | rfl <;> rfl
  | error => rfl

end Connection

theorem HandleRequest.run_takes {s : Settings} {c : Connection} (q : HandleRequest) :
    Step.Takes s c (q.run c) [] q.queues := by
  have hkeep : ∀ {x : Except Fault Handle} {y : Option Decision} {z : Option String},
      (∀ h, x = .ok h → h = { c.handle with decision := y } ∨ h = { c.handle with disconnectRequest := z }) →
      Step.Takes s c (pure { c with handle := x.toOption.getD c.handle }) [] [] :=
    fun hx => Step.Acts.takes (Step.Keeps.toActs (Step.Keeps.stay rfl (Connection.traffic_of_result hx)))
  cases q with
  | send m ch data p =>
    simp only [HandleRequest.run, HandleRequest.queues]
    cases hk : Kind.user? m ch with
    | none => exact Step.Acts.takes Step.Acts.stay
    | some kind =>
      dsimp only
      -- the payload the pool hands out carries the data
      refine Step.Under.bind Step.Under.withPool fun payload hp' => .pure ?_
      obtain ⟨pool, hp⟩ := hp'
      refine ⟨[.enqueue { payload, kind } p], .single ⟨Queued.sendable_of_user? hk payload, rfl, rfl, ?_⟩, rfl, ?_⟩
      · cases p <;> rfl
      · rw [← hp]
        rfl
  | approve => exact Step.Acts.takes (Step.Keeps.toActs (Step.Keeps.stay rfl rfl))
  | approveWith hail =>
    exact hkeep (y := some (.approve hail)) (z := none) fun h hx => by
      unfold Handle.approveWith at hx
      exact .inl (Handle.eq_of_check hx)
  | deny r =>
    exact hkeep (y := some (.deny r)) (z := none) fun h hx => by
      unfold Handle.deny at hx
      exact .inl (Handle.eq_of_check hx)
  | disconnect r =>
    exact hkeep (y := none) (z := some r) fun h hx => by
      unfold Handle.requestDisconnect at hx
      exact .inr (Handle.eq_of_check hx)

namespace Op

variable {s : Settings} {o : Op} {c : Connection}

theorem run_takes (hc : c.Sound) (ho : o ≠ .take) : Step.Takes s c (o.run c) (o.arrivals c) o.queues := by
  cases o with
  | heartbeat now => exact (Connection.heartbeat_acts hc now).takes
  | receive h p now => exact Connection.onMessage_takes h p now
  | disconnect r now => exact (Connection.disconnect_acts hc r now).takes
  | finishDisconnect r now => exact (Connection.finishDisconnect_acts hc r now).takes
  | close r => exact (Connection.close_acts r).takes
  | forciblyClosed => exact (Connection.close_acts _).takes
  | request q => exact q.run_takes
  | take => exact absurd rfl ho

theorem Turn.history {x x' : Snap} (ht : o.Turn x x') (hs : x.conn.Sound) (hset : x.shared.settings = s) :
    x'.shared.settings = s ∧ ∃ as, Act.History s x.conn as x'.conn ∧ x'.wire = x.wire ++ as.flatMap Act.msgs ∧
      as.flatMap Act.entries = o.arrivals x.conn ∧
      (as.flatMap Act.enqueued).map (fun q => (q.1.kind, q.2, q.1.payload.data)) = o.queues := by
  obtain ⟨hrun, ms, hwire, hsent⟩ := ht
  by_cases ho : o = .take
  · -- the socket takes the datagrams: no act, nothing written
    subst ho
    obtain ⟨hc, hsh⟩ := Prod.mk.inj (Except.ok.inj hrun)
    refine ⟨hsh ▸ hset, [], hc ▸ .take (.nil _), ?_, rfl, rfl⟩
    rw [hwire, show ms = [] from hsent]
    rfl
  · obtain ⟨hset', as, hp, he, hq⟩ := run_takes hs ho x.shared _ _ hset hrun
    have hsent' : Datagram.Writer.Writes x.conn.writer ms x'.conn.writer ∧ ∀ m ∈ ms, MessageWellFormed m := by
      cases o <;> first | exact absurd rfl ho | exact hsent
    -- the writer took the encodings of both lists, so they are one list
    have hms := Datagram.Writer.Writes.unique hsent'.1 hp.writes hsent'.2 hp.wellFormed
    exact ⟨hset', as, .of_path hp, hms ▸ hwire, he, hq⟩

end Op

theorem Chain.history {s : Settings} {x x' : Snap} {ts : List Turn} (h : Chain x ts x') (hs : x.conn.Sound)
    (hset : x.shared.settings = s) :
    ∃ as, Act.History s x.conn as x'.conn ∧ x'.wire = x.wire ++ as.flatMap Act.msgs ∧
      as.flatMap Act.entries = ts.flatMap Turn.arrivals ∧
      (as.flatMap Act.enqueued).map (fun q => (q.1.kind, q.2, q.1.payload.data)) = ts.flatMap Turn.queues := by
  induction h with
  | nil => exact ⟨[], .nil _, by simp, rfl, rfl⟩
  | @cons t ts x' ht _ ih =>
    obtain ⟨hset₁, as, hh, hw, he, hq⟩ := Op.Turn.history ht hs hset
    obtain ⟨as', hh', hw', he', hq'⟩ := ih (ht.cases hs).1 hset₁
    refine ⟨as ++ as', hh.append hh', by rw [hw', hw, List.flatMap_append, List.append_assoc], ?_, ?_⟩
    · rw [List.flatMap_append, he, he', List.flatMap_cons]
      rfl
    · rw [List.flatMap_append, List.map_append, hq, hq', List.flatMap_cons]
      rfl

/-! ## Runs -/

theorem Connection.create_traffic {s : Settings} (h : Handle) (i : Bool) (hs : Handshake) (now : Nat) :
    Step.Under s (Connection.create h i hs now) fun c =>
      c.traffic = { Traffic.fresh with high := h.high, normal := h.normal, low := h.low } ∧ c.writer.mtu = s.mtu := by
  unfold Connection.create
  refine .bind .settings fun s' hs' => ?_
  subst hs'
  extract_lets c₀
  unfold Connection.setStatus
  split
  · rename_i heq
    exact .pure ⟨by rw [Connection.traffic, heq]; rfl, rfl⟩
  · exact .bind (.emit _) fun _ _ => .pure ⟨rfl, rfl⟩

theorem Origin.create_traffic {s : Settings} (o : Origin) :
    Step.Under s o.create fun c => c.traffic = Traffic.fresh ∧ c.writer.mtu = s.mtu := by
  cases o with
  | outgoing id r n hail now => exact Connection.create_traffic _ _ _ _
  | incoming id r n hail now =>
    unfold Origin.create Connection.incoming
    refine .bind .settings fun _ _ => ?_
    dsimp only
    split
    · exact .bind (.emit _) fun _ _ => Connection.create_traffic _ _ _ _
    · exact Connection.create_traffic _ _ _ _

/-- Every run is a history of acts from the connection just created, under the settings it
was created with: the wire is what the acts wrote, the acknowledgements they took in are those
owed turn by turn, and they queued what the application sent. -/
theorem Run.history {o : Origin} {sh : Shared} {ts : List Turn} {x : Snap} (h : Run o sh ts x) :
    ∃ c₀ as, c₀.traffic = Traffic.fresh ∧ c₀.writer.mtu = sh.settings.mtu ∧
      Act.History sh.settings c₀ as x.conn ∧ x.wire = as.flatMap Act.msgs ∧
      as.flatMap Act.entries = ts.flatMap Turn.arrivals ∧
      (as.flatMap Act.enqueued).map (fun q => (q.1.kind, q.2, q.1.payload.data)) = ts.flatMap Turn.queues := by
  obtain ⟨x₀, ⟨hc, hw⟩, hch⟩ := h
  obtain ⟨hset, htr, hmtu⟩ := o.create_traffic sh x₀.conn x₀.shared rfl hc
  obtain ⟨as, hh, hwire, he, hq⟩ := hch.history (Origin.create_spec hc).2.1 hset
  exact ⟨x₀.conn, as, htr, hmtu, hh, by rw [hwire, hw, List.nil_append], he, hq⟩

end ReliableUdp
