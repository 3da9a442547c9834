import ReliableUdp.Net.Peer
import ReliableUdp.Proofs.Handover.Phases

/-!
# Handing datagrams to the socket along a run

With the simulated network off, a step hands the socket what the connections wrote, then the
unconnected datagrams, each once (`Network.HandsOver`). A connect is the exception: it drops an
older connection to the same endpoint with whatever its writer still holds.
-/

namespace ReliableUdp

theorem map_eq_of_forall₂ {γ δ : Type} {g : γ → δ} {l l' : List γ}
    (h : List.Forall₂ (fun a b => g b = g a) l l') : l'.map g = l.map g := by
  induction h with
  | nil => rfl
  | cons hab _ ih => rw [List.map_cons, List.map_cons, hab, ih]

theorem Except.ok_of_map {ε γ δ : Type} {x : Except ε γ} {f : γ → δ} {b : δ} (h : x.map f = .ok b) :
    ∃ a, x = .ok a ∧ f a = b := by
  cases x with
  | error e => cases h
  | ok a => exact ⟨a, rfl, Except.ok.inj h⟩

theorem Except.ok_of_toOption_map {ε γ δ : Type} {x : Except ε γ} {f : γ → δ} {v : δ}
    (h : x.toOption.map f = some v) : ∃ a, x = .ok a ∧ f a = v := by
  cases x with
  | error e => cases h
  | ok a => exact ⟨a, rfl, Option.some.inj h⟩

namespace Network

open Net (Hands)

variable {s : Settings} {n n' : Network}

theorem flowing_create (s : Settings) (socket : Socket) (r : Simulation.Draws) :
    (Network.create s socket r).Flowing s where
  settings := rfl
  sound _ h := absurd h List.not_mem_nil
  remotes := List.nodup_nil
  spare _ h := absurd h List.not_mem_nil
  delayed := rfl

/-! ## Rounds -/

/-- What happens between the loop's own moves: the application's requests and new handles,
datagrams arriving, events read out. The settings stay, the connections stay sound for their
endpoints, the spare handles' messages can be sent, and nothing is delayed anew. -/
structure Aside (n n' : Network) : Prop where
  settings : n'.shared.settings = n.shared.settings
  connections : List.Forall₂ (fun c c' => c'.Sound ∧ c'.remote = c.remote) n.connections n'.connections
  spare : ∀ h ∈ n'.handles, ∀ q ∈ h.outbound, q.Sendable
  delayed : n'.delayed = n.delayed

inductive Round : Network → Network → Prop
  | commands {n n' : Network} (now : Nat) {reason : Option String}
      (h : (Network.processCommands now).run n = .ok (reason, n')) : Round n n'
  | step {n n' : Network} (now : Nat) (h : (Network.step now).run n = .ok ((), n')) : Round n n'
  | shutdown {n n' : Network} (reason : String) (now : Nat)
      (h : (Network.shutdown reason now).run n = .ok ((), n')) : Round n n'
  | aside {n n' : Network} (h : Aside n n') : Round n n'

/-- What a round hands the socket once every connection took its step `f`: all that the
connections' writers then hold, connection after connection, and after them every unconnected
datagram queued, each once and in order, less those the socket refuses. Every connection keeps
its endpoint, and what its writer held before is still at the start of what it holds. -/
def HandsOver (f : Connection → Step Connection) (n n' : Network) : Prop :=
  ∃ cs sh, (n.connections.mapM f).run n.shared = .ok (cs, sh) ∧
    List.Forall₂ (fun c c' => c'.remote = c.remote ∧ c.writer.content <+: c'.writer.content) n.connections cs ∧
    n'.socket.failing = n.socket.failing ∧
    n'.socket.sent.toList = n.socket.sent.toList ++ n.socket.taken (cs.flatMap Connection.datagrams ++ n.unconnected)

theorem Aside.flowing (h : Aside n n') (hf : n.Flowing s) : n'.Flowing s :=
  ⟨h.settings.trans hf.settings, forall_mem_of_forall₂ (h.connections.imp fun _ _ h => h.1),
    map_eq_of_forall₂ (g := Connection.remote) (h.connections.imp fun _ _ h => h.2) ▸ hf.remotes, h.spare,
    h.delayed ▸ hf.delayed⟩

theorem handsOver_of_mapConnections {f : Connection → Step Connection} {k : Net Unit} {R : Network → Prop}
    (hf : ∀ c, c.Sound → Step.Under s (f c) fun c' =>
      c'.Sound ∧ c'.remote = c.remote ∧ c.writer.content <+: c'.writer.content)
    (hk : ∀ C U, Hands s (fun m => m.connections = C ∧ m.unconnected = U) k
      (C.flatMap Connection.datagrams ++ U) fun _ => R)
    (hn : n.Flowing s)
    (hr : StateT.run (do
      let m ← get
      let cs ← Network.liftStep (m.connections.mapM f)
      modify fun m => { m with connections := cs }
      k : Net Unit) n = .ok ((), n')) :
    n'.Flowing s ∧ HandsOver f n n' ∧ R n' := by
  simp only [StateT.run_bind, StateT.run_get, pure_bind] at hr
  obtain ⟨⟨cs, n₁⟩, h₁, h₂⟩ := Net.bind_ok hr
  obtain ⟨sh, hrun, rfl⟩ := Network.liftStep_ok h₁
  obtain ⟨⟨_, n₂⟩, h₃, h₄⟩ := Net.bind_ok h₂
  cases h₃
  obtain ⟨hset, hall⟩ := Step.Under.mapM_forall₂ (fun c hc => hf c (hn.sound c hc)) n.shared cs sh hn.settings hrun
  -- the new connections stand where the old ones stood, each sound and for the same endpoint
  have hf₁ : Network.Flowing s { n with shared := sh, connections := cs } :=
    ⟨hset, forall_mem_of_forall₂ (hall.imp fun _ _ h => h.1),
      map_eq_of_forall₂ (g := Connection.remote) (hall.imp fun _ _ h => h.2.1) ▸ hn.remotes, hn.spare, hn.delayed⟩
  obtain ⟨hf', hk', hs', hR⟩ := hk cs n.unconnected _ () n' hf₁ ⟨rfl, rfl⟩ h₄
  exact ⟨hf', ⟨cs, sh, hrun, hall.imp fun _ _ h => h.2, hk', hs'⟩, hR⟩

section Direct

variable (hsim : s.simulation.isActive = false)
include hsim

theorem step_hands (now : Nat) (hn : n.Flowing s) (hr : (Network.step now).run n = .ok ((), n')) :
    n'.Flowing s ∧ HandsOver (·.heartbeat now) n n' := by
  unfold Network.step at hr
  have h := handsOver_of_mapConnections (R := fun _ => True)
    (fun c hc => (Op.run_handover (o := .heartbeat now) (by simp) hc).mono fun _ h => ⟨h.1, h.2.2⟩) ?_ hn hr
  · exact ⟨h.1, h.2.1⟩
  · -- after the periodic step: the connections' datagrams, nothing while dropping the closed
    -- connections, the unconnected datagrams, nothing delayed, nothing while receiving
    intro C U
    refine (Hands.bind (Hands.sendConnectionDatagrams hsim now) fun _ =>
      Hands.bind Hands.removeDisconnected fun _ => Hands.bind (Hands.sendUnconnected hsim now) fun _ =>
        Hands.bind ((Hands.sendDelayed now).mono (fun _ _ => trivial) rfl fun _ _ h => h) fun _ =>
          Hands.receive now).mono (fun _ h => h) (by simp) fun _ _ h => h

theorem shutdown_hands (reason : String) (now : Nat) (hn : n.Flowing s)
    (hr : (Network.shutdown reason now).run n = .ok ((), n')) :
    n'.Flowing s ∧ HandsOver (·.finishDisconnect reason now) n n' ∧ n'.connections = [] ∧ n'.unconnected = [] := by
  rw [Network.shutdown, StateT.run_bind] at hr
  obtain ⟨⟨_, n₁⟩, h₁, h₂⟩ := Net.bind_ok hr
  cases h₁
  dsimp only at h₂
  have hf₁ : Network.Flowing s { n with status := .shuttingDown } := hn.of_eq rfl rfl rfl rfl
  have h := handsOver_of_mapConnections (f := (·.finishDisconnect reason now))
    (R := fun m => m.connections = [] ∧ m.unconnected = [])
    (fun c hc => (Op.run_handover (o := .finishDisconnect reason now) (by simp) hc).mono fun _ h => ⟨h.1, h.2.2⟩)
    ?_ hf₁ h₂
  · exact h
  · intro C U
    refine (Hands.bind (Hands.sendConnectionDatagrams hsim now) fun _ =>
      Hands.bind (E := []) (Hands.sendUnconnected hsim now) fun _ => ?_).mono (fun _ h => h) (by simp) fun _ _ h => h
    -- nothing is delayed with the simulated network off; the connections' handles become spare
    intro m a m' hf hp hr
    simp only [StateT.run_bind, StateT.run_get, StateT.run_set, pure_bind, Simulation.Delayed.takeAll, hf.delayed,
      List.map_nil] at hr
    cases hr
    exact ⟨⟨hf.settings, fun c hc => absurd hc List.not_mem_nil, List.nodup_nil,
      Connection.spare_append hf.spare hf.sound, rfl⟩, rfl, by simp, rfl, hp⟩

theorem Round.flowing (h : Round n n') (hf : n.Flowing s) : n'.Flowing s := by
  cases h with
  | commands now h => exact (Hands.processCommands now n _ n' hf ⟨rfl, rfl, rfl⟩ h).1
  | step now h => exact (step_hands hsim now hf h).1
  | shutdown reason now h => exact (shutdown_hands hsim reason now hf h).1
  | aside h => exact h.flowing hf

theorem flowing_of_rounds (h : Relation.ReflTransGen Round n n') (hf : n.Flowing s) : n'.Flowing s := by
  induction h with
  | refl => exact hf
  | tail _ hr ih => exact hr.flowing hsim ih

end Direct

theorem commands_hand_nothing {now : Nat} {reason : Option String} (hn : n.Flowing s)
    (h : (Network.processCommands now).run n = .ok (reason, n')) :
    n'.socket.sent = n.socket.sent ∧ n.unconnected <+: n'.unconnected ∧
      ((∀ id hail, Command.connect id hail ∉ n.commands) → n'.connections = n.connections) := by
  obtain ⟨-, -, hsent, hq⟩ := Hands.processCommands now n reason n' hn ⟨rfl, rfl, rfl⟩ h
  exact ⟨Array.toList_inj.1 (by simpa using hsent), hq⟩

/-- Along every run of a peer with the simulated network off: the connections are one per
remote endpoint, so the handles the application sees for them are too; a step hands the socket
exactly what the connections hold after their periodic step and then the unconnected datagrams,
each once; the shutdown does the same after every connection's goodbye and leaves nothing
behind; and a round of commands hands over nothing, keeps what is queued and, without a
connect, every connection. -/
theorem loop_hands_over_once (hsim : s.simulation.isActive = false) {socket : Socket}
    {r : Simulation.Draws} {n : Network} (hrun : Relation.ReflTransGen Round (Network.create s socket r) n) :
    ((Peer.connections n).map Handle.remote).Nodup ∧
      (∀ now n', (Network.step now).run n = .ok ((), n') → HandsOver (·.heartbeat now) n n') ∧
      (∀ reason now n', (Network.shutdown reason now).run n = .ok ((), n') →
        HandsOver (·.finishDisconnect reason now) n n' ∧ n'.connections = [] ∧ n'.unconnected = []) ∧
      (∀ now reason n', (Network.processCommands now).run n = .ok (reason, n') →
        n'.socket.sent = n.socket.sent ∧ n.unconnected <+: n'.unconnected ∧
          ((∀ id hail, Command.connect id hail ∉ n.commands) → n'.connections = n.connections)) := by
  have hf := flowing_of_rounds hsim hrun (flowing_create s socket r)
  refine ⟨?_, fun now n' h => (step_hands hsim now hf h).2, fun reason now n' h => (shutdown_hands hsim reason now hf h).2,
    fun now reason n' h => commands_hand_nothing hf h⟩
  -- the handles the application sees are the connections' own
  rw [Peer.connections, List.map_map]
  exact hf.remotes

/-! ## Runs that can be computed -/

inductive Call where
  | commands (now : Nat)
  | step (now : Nat)
  | shutdown (reason : String) (now : Nat)
  | start
  | connect (remote : Endpoint) (hail : Bytes)
  | arrive (src : Endpoint) (d : Bytes)

def Call.run : Call → Network → Except Crash Network
  | .commands now, n => ((Network.processCommands now).run n).map (·.2)
  | .step now, n => ((Network.step now).run n).map (·.2)
  | .shutdown reason now, n => ((Network.shutdown reason now).run n).map (·.2)
  | .start, n => pure { n with status := .running }
  | .connect remote hail, n =>
    match Peer.connect n true remote hail with
    | .ok (_, n') => pure n'
    | .error _ => pure n
  | .arrive src d, n => pure { n with socket := n.socket.push (.ok (src, d)) }

def runCalls : List Call → Network → Except Crash Network
  | [], n => pure n
  | k :: ks, n => k.run n >>= runCalls ks

theorem Flowing.aside (hf : n.Flowing s) (h₁ : n'.shared.settings = n.shared.settings)
    (h₂ : n'.connections = n.connections) (h₃ : ∀ h ∈ n'.handles, h ∈ n.handles ∨ h.outbound = [])
    (h₄ : n'.delayed = n.delayed) : Aside n n' := by
  refine ⟨h₁, by rw [h₂]; exact List.forall₂_same.2 fun c hc => ⟨hf.sound c hc, rfl⟩, fun h hh q hq => ?_, h₄⟩
  rcases h₃ h hh with hh | he
  · exact hf.spare h hh q hq
  · rw [he] at hq
    cases hq

theorem connect_aside {installed : Bool} {remote : Endpoint} {hail : Bytes} {id : Nat} (hf : n.Flowing s)
    (h : Peer.connect n installed remote hail = .ok (id, n')) : Aside n n' := by
  unfold Peer.connect at h
  dsimp only at h
  split at h
  · obtain ⟨_, he, -⟩ := Net.bind_ok h
    cases he
  · obtain ⟨n₁, hc, h⟩ := Net.bind_ok h
    cases h
    unfold Peer.sendCommand at hc
    obtain ⟨_, -, hc⟩ := Net.bind_ok hc
    split at hc
    · cases hc
    · split at hc
      · cases hc
      · cases hc
        refine hf.aside rfl rfl (fun h hh => ?_) rfl
        rcases List.mem_append.1 hh with hh | hh
        · exact .inl hh
        · rw [List.mem_singleton.1 hh]
          exact .inr rfl

theorem Call.round (hf : n.Flowing s) {k : Call} (h : k.run n = .ok n') : Round n n' := by
  cases k with
  | commands now =>
    obtain ⟨⟨_, _⟩, hr, rfl⟩ := Except.ok_of_map h
    exact .commands now hr
  | step now =>
    obtain ⟨⟨_, _⟩, hr, rfl⟩ := Except.ok_of_map h
    exact .step now hr
  | shutdown reason now =>
    obtain ⟨⟨_, _⟩, hr, rfl⟩ := Except.ok_of_map h
    exact .shutdown reason now hr
  | start =>
    cases h
    exact .aside (hf.aside rfl rfl (fun h hh => .inl hh) rfl)
  | connect remote hail =>
    simp only [Call.run] at h
    split at h
    · cases h
      exact .aside (connect_aside hf (by assumption))
    · cases h
      exact .aside (hf.aside rfl rfl (fun h hh => .inl hh) rfl)
  | arrive src d =>
    cases h
    exact .aside (hf.aside rfl rfl (fun h hh => .inl hh) rfl)

theorem rounds_of_runCalls (hsim : s.simulation.isActive = false) {β : Type} (f : Network → β) (v : β) :
    ∀ (ks : List Call) {n : Network}, n.Flowing s → (runCalls ks n).toOption.map f = some v →
      ∃ n', Relation.ReflTransGen Round n n' ∧ f n' = v
  | [], n, _, h => ⟨n, .refl, Option.some.inj h⟩
  | k :: ks, n, hf, h => by
    cases hk : k.run n with
    | error e =>
      rw [runCalls, hk] at h
      cases h
    | ok n₁ =>
      rw [runCalls, hk] at h
      have hround := Call.round hf hk
      obtain ⟨n₂, hrun, hv⟩ := rounds_of_runCalls hsim f v ks (hround.flowing hsim hf) h
      exact ⟨n₂, .head hround hrun, hv⟩

theorem loop_hands_over_once_connecting :
    ({ appId := "test-app" } : Settings).simulation.isActive = false ∧
      ∃ n, Relation.ReflTransGen Round (Network.create { appId := "test-app" } { address := .localhost 6000 } (.const 0.5)) n ∧
        n.connections.length = 1 ∧ ((Peer.connections n).map Handle.remote).Nodup := by
  obtain ⟨n, hrun, hlen⟩ := rounds_of_runCalls (s := { appId := "test-app" }) (by decide) (·.connections.length) 1
    [.start, .connect (.localhost 7000) [], .commands 0, .step 0] (flowing_create _ { address := .localhost 6000 } (.const 0.5))
    (by decide +kernel)
  exact ⟨by decide, n, hrun, hlen, (loop_hands_over_once (by decide) hrun).1⟩

/-! ## Reconnecting -/

def reconnectCalls : List Call :=
  [.start, .connect (.localhost 7000) [], .commands 0, .step 0, .arrive (.localhost 7000) [0, 1, 1, 0],
    .commands (Span.ofMillis 1), .step (Span.ofMillis 1), .connect (.localhost 7000) []]

/-- Connecting again to an endpoint whose connection still holds a datagram drops that datagram.
The ConnectionEstablished written when the answer to the first Connect came in is held by the
only connection when the second connect is run; the step after it hands the socket only the
new connection's Connect, and then no connection and no queue holds anything. -/
theorem reconnect_drops_written :
    ∃ n₁ n₂ n₃ : Network,
      Relation.ReflTransGen Round (Network.create { appId := "test-app" } { address := .localhost 6000 } (.const 0.5)) n₁ ∧
      n₁.connections.map (fun c => (c.remote, c.writer.content)) = [(.localhost 7000, [0, 2, 0])] ∧
      (Network.processCommands (Span.ofMillis 2)).run n₁ = .ok (none, n₂) ∧
      (Network.step (Span.ofMillis 2)).run n₂ = .ok ((), n₃) ∧
      n₃.socket.sent.toList =
        n₁.socket.sent.toList ++ [(.localhost 7000, [0, 0, 10, 8, 116, 101, 115, 116, 45, 97, 112, 112, 0])] ∧
      n₃.connections.map (·.writer.content) = [[]] ∧ n₃.unconnected = [] := by
  obtain ⟨n₁, hrun, hv⟩ := rounds_of_runCalls (s := { appId := "test-app" }) (by decide)
    (fun n₁ => (n₁.connections.map (fun c => (c.remote, c.writer.content)), n₁.socket.sent.toList,
      ((Network.processCommands (Span.ofMillis 2)).run n₁).toOption.map fun p =>
        (p.1, ((Network.step (Span.ofMillis 2)).run p.2).toOption.map fun q =>
          (q.2.socket.sent.toList, q.2.connections.map (·.writer.content), q.2.unconnected))))
    ([(.localhost 7000, [0, 2, 0])], [(.localhost 7000, [0, 0, 10, 8, 116, 101, 115, 116, 45, 97, 112, 112, 0])],
      some (none, some ([(.localhost 7000, [0, 0, 10, 8, 116, 101, 115, 116, 45, 97, 112, 112, 0]),
        (.localhost 7000, [0, 0, 10, 8, 116, 101, 115, 116, 45, 97, 112, 112, 0])], [[]], [])))
    reconnectCalls (flowing_create _ { address := .localhost 6000 } (.const 0.5))
    (by set_option synthInstance.maxSize 4096 in decide +kernel)
  simp only [Prod.mk.injEq] at hv
  obtain ⟨hconn, hsent₁, hnext⟩ := hv
  obtain ⟨⟨reason, n₂⟩, h₂, hv₂⟩ := Except.ok_of_toOption_map hnext
  simp only [Prod.mk.injEq] at hv₂
  obtain ⟨rfl, hstep⟩ := hv₂
  obtain ⟨⟨_, n₃⟩, h₃, hv₃⟩ := Except.ok_of_toOption_map hstep
  simp only [Prod.mk.injEq] at hv₃
  obtain ⟨hsent₃, hconn₃, hunc₃⟩ := hv₃
  exact ⟨n₁, n₂, n₃, hrun, hconn, h₂, h₃, by rw [hsent₃, hsent₁]; rfl, hconn₃, hunc₃⟩

end Network

end ReliableUdp
