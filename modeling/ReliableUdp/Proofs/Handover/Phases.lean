import ReliableUdp.Proofs.Ledger.Network
import ReliableUdp.Proofs.Traffic.Runs

/-!
# Handing datagrams to the socket: the phases of the loop

`Net.Hands s P x D Q`: from a `Flowing` network meeting `P`, a run of `x` hands the socket the
datagrams `D` and leaves a flowing network where `Q` holds. One lemma per function of the loop.
-/

namespace ReliableUdp

/-! ## Connections -/

theorem Face.Step.ident {κ : Cause} {f g : Face} (h : Face.Step κ f g) : g.id = f.id ∧ g.remote = f.remote := by
  cases h with
  | refuse =>
    unfold Face.close
    split <;> exact ⟨rfl, rfl⟩
  | stay | enter | respond | approve | confirm => exact ⟨rfl, rfl⟩

namespace Op

/-- An operation other than a take, run on a sound connection, keeps it sound, keeps the
settings and the connection's handle number and endpoint, and only adds to what its writer
holds. -/
theorem run_handover {o : Op} (ho : o ≠ .take) {s : Settings} {c : Connection} (hs : c.Sound) :
    Step.Under s (o.run c) fun c' => c'.Sound ∧ c'.handle.id = c.handle.id ∧ c'.remote = c.remote ∧
      c.writer.content <+: c'.writer.content := by
  intro sh c' sh' hset hr
  obtain ⟨ms, ht⟩ := turn_of_run (s := ⟨c, sh, []⟩) hs hr
  obtain ⟨f, hf, hface⟩ := ht.face_trace hs
  -- the face moves only along steps that keep whose connection it is
  have hid := Face.trace_rel (R := fun f g => g.id = f.id ∧ g.remote = f.remote) (fun _ => ⟨rfl, rfl⟩)
    (fun _ _ _ h₁ h₂ => ⟨h₂.1.trans h₁.1, h₂.2.trans h₁.2⟩) (fun _ _ h => h.ident) hf
  have hw : ∃ ms', Datagram.Writer.Writes c.writer ms' c'.writer := by
    obtain ⟨-, ms', -, hsent⟩ := ht
    cases o <;> first | exact absurd rfl ho | exact ⟨ms', hsent.1⟩
  obtain ⟨ms', hw⟩ := hw
  refine ⟨(ht.history hs hset).1, (ht.cases hs).1, ?_, ?_, ⟨_, hw.content.symm⟩⟩
  · exact (congrArg Face.id hface).trans hid.1
  · exact (congrArg Face.remote hface).trans hid.2

end Op

theorem Step.Under.mapM_forall₂ {s : Settings} {γ β : Type} {f : γ → Step β} {R : γ → β → Prop} :
    ∀ {l : List γ}, (∀ a ∈ l, Step.Under s (f a) (R a)) → Step.Under s (l.mapM f) (List.Forall₂ R l ·)
  | [], _ => .pure .nil
  | a :: l, h => by
    rw [List.mapM_cons]
    exact .bind (h a List.mem_cons_self) fun b hb =>
      .bind (mapM_forall₂ fun a' ha' => h a' (List.mem_cons_of_mem _ ha')) fun bs hbs => .pure (.cons hb hbs)

theorem forall_mem_of_forall₂ {γ β : Type} {P : β → Prop} :
    ∀ {l : List γ} {l' : List β}, List.Forall₂ (fun _ b => P b) l l' → ∀ b ∈ l', P b
  | _, _, .nil => fun _ h => absurd h List.not_mem_nil
  | _, _, .cons h hs => fun b hb => (List.mem_cons.1 hb).elim (fun e => e ▸ h) (forall_mem_of_forall₂ hs b)

namespace Connection

theorem create_handover {s : Settings} {h : Handle} (hq : ∀ q ∈ h.outbound, q.Sendable) (i : Bool)
    (hs : Handshake) (now : Nat) :
    Step.Under s (Connection.create h i hs now) fun c => c.Sound ∧ c.handle.id = h.id ∧ c.remote = h.remote := by
  intro sh c sh' hset hr
  refine ⟨(create_traffic (s := s) h i hs now sh c sh' hset hr).1, ?_⟩
  obtain ⟨_, sh₁, h₁, h₂⟩ := Step.run_bind_ok hr
  cases h₁
  rcases setStatus_run h₂ with ⟨he, -, -⟩ | ⟨-, rfl, -⟩
  · cases he
  exact ⟨⟨hq, SendWindow.holds_fresh _, by simp⟩, rfl, rfl⟩

theorem join {cs : List Connection} {c : Connection} (hs : ∀ c ∈ cs, c.Sound)
    (hn : (cs.map Connection.remote).Nodup) (hc : c.Sound) (hr : c.remote ∉ cs.map Connection.remote) :
    (∀ c' ∈ cs ++ [c], c'.Sound) ∧ ((cs ++ [c]).map Connection.remote).Nodup := by
  refine ⟨fun c' h => ?_, ?_⟩
  · rcases List.mem_append.1 h with h | h
    · exact hs c' h
    · rw [List.mem_singleton.1 h]
      exact hc
  · rw [List.map_append, List.map_singleton, ← List.concat_eq_append]
    exact hn.concat hr

theorem spare_append {hs : List Handle} {cs : List Connection} (h₁ : ∀ h ∈ hs, ∀ q ∈ h.outbound, q.Sendable)
    (h₂ : ∀ c ∈ cs, c.Sound) : ∀ h ∈ hs ++ cs.map (·.handle), ∀ q ∈ h.outbound, q.Sendable := by
  intro h hh q hq
  rcases List.mem_append.1 hh with hh | hh
  · exact h₁ h hh q hq
  · obtain ⟨c, hc, rfl⟩ := List.mem_map.1 hh
    exact (h₂ c hc).queued q hq

def datagrams (c : Connection) : List (Endpoint × Bytes) := c.takeDatagrams.1.map fun d => (c.remote, d)

theorem flatten_takeDatagrams (c : Connection) : c.takeDatagrams.1.flatten = c.writer.content := by
  unfold takeDatagrams Datagram.Writer.take Datagram.Writer.content
  cases c.writer.current <;> simp

end Connection

/-! ## The socket -/

namespace Socket

def takes (s : Socket) (dest : Endpoint) : Bool := (s.failing.find? (·.1 == dest)).isNone

def taken (s : Socket) (D : List (Endpoint × Bytes)) : List (Endpoint × Bytes) := D.filter fun p => s.takes p.1

variable {s s' : Socket} {D E : List (Endpoint × Bytes)}

@[simp] theorem taken_nil : s.taken [] = [] := rfl

@[simp] theorem taken_append : s.taken (D ++ E) = s.taken D ++ s.taken E := List.filter_append ..

theorem taken_congr (h : s'.failing = s.failing) : s'.taken D = s.taken D := by
  simp only [taken, takes, h]

theorem send_hands (s : Socket) (dest : Endpoint) (d : Bytes) :
    (s.send dest d).2.failing = s.failing ∧ (s.send dest d).2.sent.toList = s.sent.toList ++ s.taken [(dest, d)] := by
  unfold send taken takes
  cases h : s.failing.find? (·.1 == dest) with
  | none => simp [h]
  | some f =>
    obtain ⟨_, k⟩ := f
    simp [h]

theorem receive_keeps (s : Socket) : s.receive.2.failing = s.failing ∧ s.receive.2.sent = s.sent := by
  unfold receive
  split <;> exact ⟨rfl, rfl⟩

end Socket

/-! ## Flowing networks -/

namespace Network

/-- What the loop's handing over rests on: the settings `s`, every connection sound, one
connection per remote endpoint, the spare handles' queued messages sendable, nothing delayed. -/
structure Flowing (s : Settings) (n : Network) : Prop where
  settings : n.shared.settings = s
  sound : ∀ c ∈ n.connections, c.Sound
  remotes : (n.connections.map Connection.remote).Nodup
  spare : ∀ h ∈ n.handles, ∀ q ∈ h.outbound, q.Sendable
  delayed : n.delayed.queue = []

theorem Flowing.of_eq {s : Settings} {n n' : Network} (hf : n.Flowing s) (h₁ : n'.shared.settings = n.shared.settings)
    (h₂ : n'.connections = n.connections) (h₃ : n'.handles = n.handles) (h₄ : n'.delayed = n.delayed) :
    n'.Flowing s :=
  ⟨h₁.trans hf.settings, h₂ ▸ hf.sound, h₂ ▸ hf.remotes, h₃ ▸ hf.spare, h₄ ▸ hf.delayed⟩

end Network

/-! ## Handing over -/

namespace Net

variable {α β : Type} {s : Settings}

/-- From a flowing network that meets `P`, every successful run of `x` leaves a flowing network
with the socket's failures kept, whose socket was handed the datagrams `D` one after the other
(keeping those that `Socket.taken` lets through), and after which `Q` holds of the result. -/
def Hands (s : Settings) (P : Network → Prop) (x : Net α) (D : List (Endpoint × Bytes))
    (Q : α → Network → Prop) : Prop :=
  ∀ n a n', n.Flowing s → P n → x.run n = .ok (a, n') →
    n'.Flowing s ∧ n'.socket.failing = n.socket.failing ∧
      n'.socket.sent.toList = n.socket.sent.toList ++ n.socket.taken D ∧ Q a n'

namespace Hands

variable {P : Network → Prop} {x : Net α} {D E : List (Endpoint × Bytes)} {Q : α → Network → Prop}

theorem run_after {n n₁ n' : Network} {a : α} (hx : Hands s P x E Q) (hf : n₁.Flowing s) (hp : P n₁)
    (hk : n₁.socket.failing = n.socket.failing)
    (hs : n₁.socket.sent.toList = n.socket.sent.toList ++ n.socket.taken D) (hr : x.run n₁ = .ok (a, n')) :
    n'.Flowing s ∧ n'.socket.failing = n.socket.failing ∧
      n'.socket.sent.toList = n.socket.sent.toList ++ n.socket.taken (D ++ E) ∧ Q a n' := by
  obtain ⟨hf', hk', hs', hq⟩ := hx n₁ a n' hf hp hr
  refine ⟨hf', hk'.trans hk, ?_, hq⟩
  rw [hs', hs, Socket.taken_congr hk, Socket.taken_append, List.append_assoc]

theorem pure {a : α} (h : ∀ n, P n → Q a n) : Hands s P (Pure.pure a : Net α) [] Q := by
  intro n b n' hf hp hr
  cases hr
  exact ⟨hf, rfl, by simp, h n hp⟩

theorem bind {f : α → Net β} {R : β → Network → Prop} (hx : Hands s P x D Q)
    (hf : ∀ a, Hands s (Q a) (f a) E R) : Hands s P (x >>= f) (D ++ E) R := by
  intro n b n' hfl hp hr
  obtain ⟨a, n₁, h₁, h₂⟩ := Net.run_bind_ok hr
  obtain ⟨hf₁, hk₁, hs₁, hq⟩ := hx n a n₁ hfl hp h₁
  exact (hf a).run_after hf₁ hq hk₁ hs₁ h₂

theorem mono {P' : Network → Prop} {D' : List (Endpoint × Bytes)} {Q' : α → Network → Prop}
    (hx : Hands s P x D Q) (hP : ∀ n, P' n → P n) (hD : D = D') (hQ : ∀ a n, Q a n → Q' a n) :
    Hands s P' x D' Q' := by
  intro n a n' hf hp hr
  obtain ⟨hf', hk, hs, hq⟩ := hx n a n' hf (hP n hp) hr
  exact ⟨hf', hk, hD ▸ hs, hQ a n' hq⟩

theorem ghost {γ : Type} (F : Network → γ) (hx : ∀ v, Hands s (fun n => F n = v ∧ P n) x D Q) :
    Hands s P x D Q :=
  fun n a n' hf hp hr => hx (F n) n a n' hf ⟨rfl, hp⟩ hr

theorem get : Hands s P (MonadState.get : Net Network) [] fun a n' => a = n' ∧ P n' := by
  intro n a n' hf hp hr
  cases hr
  exact ⟨hf, rfl, by simp, rfl, hp⟩

theorem modify {g : Network → Network} {R : Network → Prop}
    (h : ∀ n, n.Flowing s → P n → (g n).Flowing s ∧ (g n).socket = n.socket ∧ R (g n)) :
    Hands s P (modify g : Net PUnit) [] fun _ => R := by
  intro n a n' hf hp hr
  cases hr
  obtain ⟨hf', hsock, hR⟩ := h n hf hp
  exact ⟨hf', by rw [hsock], by simp [hsock], hR⟩

theorem liftStep {y : Step α} {R : α → Prop} (hy : Step.Under s y R)
    (hP : ∀ n sh, P n → P { n with shared := sh }) :
    Hands s P (Network.liftStep y) [] fun a n' => R a ∧ P n' := by
  intro n a n' hf hp hr
  obtain ⟨sh, hy', rfl⟩ := Network.liftStep_ok hr
  obtain ⟨hset, hR⟩ := hy n.shared a sh hf.settings hy'
  exact ⟨⟨hset, hf.sound, hf.remotes, hf.spare, hf.delayed⟩, rfl, by simp, hR, hP n sh hp⟩

theorem crash {r : Except Crash α} : Hands s P (StateT.lift r : Net α) [] fun a n' => r = .ok a ∧ P n' := by
  intro n a n' hf hp hr
  cases r with
  | error => cases hr
  | ok b =>
    cases hr
    exact ⟨hf, rfl, by simp, rfl, hp⟩

theorem emit (g : Released → Released) (hP : ∀ n sh, P n → P { n with shared := sh }) :
    Hands s P (Network.emit g) [] fun _ => P :=
  (liftStep (Step.Under.emit g) hP).mono (fun _ h => h) rfl fun _ _ h => h.2

theorem countStat (g : Stats → Stats) (hP : ∀ n sh, P n → P { n with shared := sh }) :
    Hands s P (Network.countStat g) [] fun _ => P :=
  (liftStep (Step.Under.count g) hP).mono (fun _ h => h) rfl fun _ _ h => h.2

theorem forM {γ : Type} {f : γ → Net PUnit} {F : γ → List (Endpoint × Bytes)}
    (hf : ∀ a, Hands s P (f a) (F a) fun _ => P) : ∀ l : List γ, Hands s P (l.forM f) (l.flatMap F) fun _ => P
  | [] => pure fun _ h => h
  | a :: l => by
    rw [List.flatMap_cons]
    simp only [List.forM]
    exact bind (hf a) fun _ => forM hf l

theorem run_from {n n₁ n' : Network} {a : α} (hx : Hands s P x D Q) (hf : n₁.Flowing s) (hp : P n₁)
    (hsock : n₁.socket = n.socket) (hr : x.run n₁ = .ok (a, n')) :
    n'.Flowing s ∧ n'.socket.failing = n.socket.failing ∧
      n'.socket.sent.toList = n.socket.sent.toList ++ n.socket.taken D ∧ Q a n' :=
  hsock ▸ hx n₁ a n' hf hp hr

/-! ### Sending -/

variable {U : List (Endpoint × Bytes)}

theorem onConnection (dest : Endpoint) {f : Connection → Step Connection}
    (hf : ∀ c, c.Sound → Step.Under s (f c) fun c' => c'.Sound ∧ c'.remote = c.remote) :
    Hands s (·.unconnected = U) (Network.onConnection dest f) [] fun found n' =>
      n'.unconnected = U ∧ (found = false → dest ∉ n'.connections.map Connection.remote) := by
  intro n b n' hfl hp hr
  simp only [Network.onConnection, StateT.run_bind, StateT.run_get, pure_bind] at hr
  split at hr
  · rename_i i hi
    obtain ⟨hlt, -, -⟩ := List.findIdx?_eq_some_iff_getElem.1 hi
    split at hr
    · rename_i c hc
      obtain ⟨_, rfl⟩ := List.getElem?_eq_some_iff.1 hc
      obtain ⟨c', n₁, h₁, h₂⟩ := Net.run_bind_ok hr
      obtain ⟨sh, hrun, rfl⟩ := Network.liftStep_ok h₁
      simp only [StateT.run_bind, StateT.run_modify, pure_bind, StateT.run_pure] at h₂
      cases h₂
      have hmem := List.getElem_mem hlt
      obtain ⟨hset, hs', hrem⟩ := hf _ (hfl.sound _ hmem) n.shared c' sh hfl.settings hrun
      -- the connection keeps its place and its endpoint
      have hlen : i < (n.connections.map Connection.remote).length := by simpa using hlt
      have hget : (n.connections.map Connection.remote)[i] = c'.remote := by simp [hrem]
      have hmap : (n.connections.set i c').map Connection.remote = n.connections.map Connection.remote := by
        rw [List.map_set, ← hget, List.set_getElem_self]
      refine ⟨⟨hset, fun c₂ h₂ => ?_, hmap ▸ hfl.remotes, hfl.spare, hfl.delayed⟩, rfl, by simp, hp,
        fun h => by cases h⟩
      rcases List.mem_or_eq_of_mem_set h₂ with h₂ | rfl
      · exact hfl.sound c₂ h₂
      · exact hs'
    · rename_i hc
      exact absurd hc (List.getElem?_eq_some_iff.2 ⟨hlt, rfl⟩ ▸ Option.some_ne_none _)
  · rename_i hi
    cases hr
    refine ⟨hfl, rfl, by simp, hp, fun _ hd => ?_⟩
    obtain ⟨c, hc, rfl⟩ := List.mem_map.1 hd
    exact absurd (List.findIdx?_eq_none_iff.1 hi c hc) (by simp)

theorem blind_unconnected (n : Network) (sh : Shared) (h : n.unconnected = U) :
    ({ n with shared := sh } : Network).unconnected = U := h

theorem sendNow (dest : Endpoint) (d : Bytes) :
    Hands s (·.unconnected = U) (Network.sendNow dest d) [(dest, d)] fun _ n' => n'.unconnected = U := by
  intro n a n' hf hp hr
  simp only [Network.sendNow, StateT.run_bind, StateT.run_get, pure_bind] at hr
  obtain ⟨hk, hsent⟩ := n.socket.send_hands dest d
  generalize n.socket.send dest d = p at hr hk hsent
  obtain ⟨r, sock⟩ := p
  simp only [StateT.run_set, pure_bind] at hr
  have hf₁ : Network.Flowing s { n with socket := sock } := hf.of_eq rfl rfl rfl rfl
  have hclose : Hands s (·.unconnected = U) (do let _ ← Network.onConnection dest Connection.forciblyClosed; Pure.pure ())
      [] fun _ n' => n'.unconnected = U :=
    bind (onConnection dest fun c hc => (Op.run_handover (o := .forciblyClosed) (by simp) hc).mono
      fun _ h => ⟨h.1, h.2.2.1⟩) fun _ => pure fun _ h => h.1
  split at hr
  · simpa only [List.append_nil] using (countStat _ blind_unconnected).run_after hf₁ hp hk hsent hr
  · simpa only [List.append_nil] using hclose.run_after hf₁ hp hk hsent hr
  · simpa only [List.append_nil] using hclose.run_after hf₁ hp hk hsent hr
  · split at hr
    · obtain ⟨_, _, h₁, -⟩ := Net.run_bind_ok hr
      cases h₁
    · simpa only [List.append_nil] using (emit _ blind_unconnected).run_after hf₁ hp hk hsent hr

section Direct

variable (hsim : s.simulation.isActive = false)
include hsim

theorem sendDatagram (dest : Endpoint) (d : Bytes) (now : Nat) :
    Hands s (·.unconnected = U) (Network.sendDatagram dest d now) [(dest, d)] fun _ n' => n'.unconnected = U := by
  intro n a n' hf hp hr
  simp only [Network.sendDatagram, StateT.run_bind, StateT.run_get, pure_bind] at hr
  rw [if_neg (by simp [Network.settings, hf.settings, hsim])] at hr
  exact sendNow dest d n a n' hf hp hr

theorem sendAll (ds : List (Endpoint × Bytes)) (now : Nat) :
    Hands s (·.unconnected = U) (Network.sendAll ds now) ds fun _ n' => n'.unconnected = U :=
  (forM (F := fun p => [p]) (fun p => by obtain ⟨dest, d⟩ := p; exact sendDatagram hsim dest d now) ds).mono
    (fun _ h => h) (by simp) fun _ _ h => h

theorem sendConnectionDatagrams {C : List Connection} (now : Nat) :
    Hands s (fun n => n.connections = C ∧ n.unconnected = U) (Network.sendConnectionDatagrams now)
      (C.flatMap Connection.datagrams) fun _ n' => n'.unconnected = U := by
  intro n a n' hf ⟨hC, hU⟩ hr
  simp only [Network.sendConnectionDatagrams, StateT.run_bind, StateT.run_get, StateT.run_set, pure_bind] at hr
  subst hC
  -- taking the datagrams leaves every connection sound, with its endpoint
  have hf₁ : Network.Flowing s { n with connections := n.connections.map fun c => c.takeDatagrams.2 } := by
    refine ⟨hf.settings, fun c hc => ?_, ?_, hf.spare, hf.delayed⟩
    · obtain ⟨c₀, hc₀, rfl⟩ := List.mem_map.1 hc
      exact (hf.sound c₀ hc₀).frame rfl rfl rfl
    · have hmap : (n.connections.map fun c => c.takeDatagrams.2).map Connection.remote =
          n.connections.map Connection.remote := by
        rw [List.map_map]
        rfl
      exact hmap ▸ hf.remotes
  exact (sendAll hsim _ now).run_from hf₁ hU rfl hr

theorem sendUnconnected (now : Nat) :
    Hands s (·.unconnected = U) (Network.sendUnconnected now) U fun _ n' => n'.unconnected = [] := by
  intro n a n' hf hp hr
  simp only [Network.sendUnconnected, StateT.run_bind, StateT.run_get, StateT.run_set, pure_bind] at hr
  subst hp
  have hf₁ : Network.Flowing s { n with unconnected := [] } := hf.of_eq rfl rfl rfl rfl
  exact (sendAll hsim n.unconnected now).run_from hf₁ rfl rfl hr

end Direct

theorem removeDisconnected : Hands s (·.unconnected = U) Network.removeDisconnected [] fun _ n' => n'.unconnected = U := by
  unfold Network.removeDisconnected
  refine modify fun n hf hp => ⟨⟨hf.settings, fun c hc => hf.sound c (List.mem_of_mem_filter hc),
    hf.remotes.sublist (List.Sublist.map _ List.filter_sublist),
    Connection.spare_append hf.spare fun c hc => hf.sound c (List.mem_of_mem_filter hc), hf.delayed⟩, rfl, hp⟩

theorem sendDelayed (now : Nat) : Hands s (fun _ => True) (Network.sendDelayed now) [] fun _ _ => True := by
  intro n a n' hf _ hr
  simp only [Network.sendDelayed, StateT.run_bind, StateT.run_get, StateT.run_set, pure_bind,
    Simulation.Delayed.takeDue, hf.delayed] at hr
  cases hr
  exact ⟨⟨hf.settings, hf.sound, hf.remotes, hf.spare, rfl⟩, rfl, by simp, trivial⟩

/-! ### Queueing and receiving -/

theorem queueUnconnected {V : List (Endpoint × Bytes)} {C : List Connection} (dest : Endpoint) (h : Header)
    (payload : Bytes) :
    Hands s (fun n => V <+: n.unconnected ∧ n.connections = C) (Network.queueUnconnected dest h payload) []
      fun _ n' => V <+: n'.unconnected ∧ n'.connections = C :=
  modify fun _ hf hp => ⟨hf.of_eq rfl rfl rfl rfl, rfl, hp.1.trans (List.prefix_append _ _), hp.2⟩

theorem queueControl {V : List (Endpoint × Bytes)} {C : List Connection} (dest : Endpoint) (k : Control)
    (payload : Bytes) :
    Hands s (fun n => V <+: n.unconnected ∧ n.connections = C) (Network.queueControl dest k payload) []
      fun _ n' => V <+: n'.unconnected ∧ n'.connections = C :=
  bind crash fun _ => (queueUnconnected dest _ payload).mono (fun _ h => h.2) rfl fun _ _ h => h

theorem queueControl_any (dest : Endpoint) (k : Control) (payload : Bytes) :
    Hands s (fun _ => True) (Network.queueControl dest k payload) [] fun _ _ => True :=
  ghost Network.connections fun C => (queueControl (V := []) (C := C) dest k payload).mono
    (fun _ h => ⟨List.nil_prefix, h.1⟩) rfl fun _ _ _ => trivial

theorem onConnect (src : Endpoint) (app : String) (hail : Bytes) (now : Nat) :
    Hands s (fun n => src ∉ n.connections.map Connection.remote) (Network.onConnect src app hail now) []
      fun _ _ => True := by
  intro n a n' hf hsrc hr
  simp only [Network.onConnect, StateT.run_bind, StateT.run_get, pure_bind] at hr
  split at hr
  · exact (bind (emit (P := fun n : Network => src ∉ n.connections.map Connection.remote) _ fun _ _ h => h)
      fun _ => (queueControl_any src _ _).mono (fun _ _ => trivial) rfl fun _ _ _ => trivial).run_from hf hsrc rfl hr
  · simp only [StateT.run_bind, StateT.run_set, pure_bind] at hr
    obtain ⟨⟨c, n₁⟩, h₁, h₂⟩ := Net.bind_ok hr
    obtain ⟨sh, hrun, rfl⟩ := Network.liftStep_ok h₁
    cases h₂
    -- the new connection is the incoming one made from the next handle number
    have hrun' : (Origin.incoming n.nextHandle src n.settings.maxPayload hail now).create.run n.shared =
        .ok (c, sh) := hrun
    obtain ⟨hface, hsound, -⟩ := Origin.create_spec hrun'
    have hset := (Origin.create_traffic (s := s) _ n.shared c sh hf.settings hrun').1
    have hrem : c.remote = src := congrArg Face.remote hface
    obtain ⟨hsound', hnodup⟩ := Connection.join hf.sound hf.remotes hsound (hrem ▸ hsrc)
    exact ⟨⟨hset, hsound', hnodup, hf.spare, hf.delayed⟩, rfl, by simp, trivial⟩

theorem onLooseControl (src : Endpoint) (k : Control) (payload : Bytes) (now : Nat) :
    Hands s (fun n => src ∉ n.connections.map Connection.remote) (Network.onLooseControl src k payload now) []
      fun _ _ => True := by
  unfold Network.onLooseControl
  refine bind get fun _ => mono (P := fun n : Network => src ∉ n.connections.map Connection.remote) ?_
    (fun _ h => h.2) rfl fun _ _ h => h
  split
  · split
    · exact bind (onConnect src _ _ now) fun _ => pure fun _ _ => trivial
    · exact pure fun _ _ => trivial
  · split
    · dsimp only
      split
      · exact (bind (queueControl_any src _ _) fun _ => pure fun _ _ => trivial).mono (fun _ _ => trivial) rfl
          fun _ _ h => h
      · exact pure fun _ _ => trivial
    · exact pure fun _ _ => trivial
  · exact bind (emit _ fun _ _ h => h) fun _ => pure fun _ _ => trivial
  · exact pure fun _ _ => trivial

theorem onMessage (src : Endpoint) (h : Header) (payload : Bytes) (now : Nat) :
    Hands s (fun _ => True) (Network.onMessage src h payload now) [] fun _ _ => True := by
  unfold Network.onMessage
  refine ghost Network.unconnected fun U => ?_
  refine bind ((onConnection src fun c hc => (Op.run_handover (o := .receive h payload now) (by simp) hc).mono
    fun _ h => ⟨h.1, h.2.2.1⟩).mono (fun _ h => h.1) rfl fun _ _ h => h) fun found => ?_
  split
  · exact pure fun _ _ => trivial
  · rename_i hfound
    -- no connection took it: none has that endpoint
    have hnone : ∀ n : Network, n.unconnected = U ∧ (found = false → src ∉ n.connections.map Connection.remote) →
        src ∉ n.connections.map Connection.remote := fun _ hn => hn.2 (by simpa using hfound)
    split
    · split
      · refine (bind (onLooseControl src _ payload now) fun r => ?_).mono hnone rfl fun _ _ h => h
        split
        · exact emit _ fun _ _ h => h
        · exact pure fun _ _ => trivial
      · exact pure fun _ _ => trivial
    · exact (emit _ fun _ _ h => h).mono (fun _ _ => trivial) rfl fun _ _ _ => trivial
    · exact (emit _ fun _ _ h => h).mono (fun _ _ => trivial) rfl fun _ _ _ => trivial

theorem onDatagram (src : Endpoint) (d : Bytes) (now : Nat) :
    Hands s (fun _ => True) (Network.onDatagram src d now) [] fun _ _ => True :=
  (forM (F := fun _ => []) (fun r => by
    split
    · exact onMessage src _ _ now
    · exact emit _ fun _ _ h => h) _).mono (fun _ h => h) (by simp) fun _ _ h => h

theorem receiveFor (now : Nat) : ∀ fuel, Hands s (fun _ => True) (Network.receiveFor now fuel) [] fun _ _ => True
  | 0 => pure fun _ _ => trivial
  | fuel + 1 => by
    intro n a n' hf hp hr
    simp only [Network.receiveFor, StateT.run_bind, StateT.run_get, pure_bind] at hr
    obtain ⟨hk, hsent⟩ := n.socket.receive_keeps
    generalize n.socket.receive = p at hr hk hsent
    obtain ⟨r, sock⟩ := p
    simp only [StateT.run_set, pure_bind] at hr hk hsent
    have hf₁ : Network.Flowing s { n with socket := sock } := hf.of_eq rfl rfl rfl rfl
    have hs₁ : ({ n with socket := sock } : Network).socket.sent.toList = n.socket.sent.toList ++ n.socket.taken [] := by
      simp [hsent]
    split at hr
    · exact (bind (countStat _ fun _ _ h => h) fun _ => bind (onDatagram _ _ now) fun _ => receiveFor now fuel).run_after
        hf₁ hp hk hs₁ hr
    · exact (receiveFor now fuel).run_after hf₁ hp hk hs₁ hr
    · exact (pure (P := fun _ => True) (Q := fun _ _ => True) fun _ _ => trivial).run_after hf₁ hp hk hs₁ hr
    · exact (pure (P := fun _ => True) (Q := fun _ _ => True) fun _ _ => trivial).run_after hf₁ hp hk hs₁ hr

theorem receive (now : Nat) : Hands s (fun _ => True) (Network.receive now) [] fun _ _ => True :=
  bind get fun _ => (receiveFor now _).mono (fun _ _ => trivial) rfl fun _ _ h => h

/-! ### Commands -/

theorem connect {V : List (Endpoint × Bytes)} (id : Nat) (hail : Bytes) (now : Nat) :
    Hands s (fun n => V <+: n.unconnected) (Network.connect id hail now) [] fun _ n' => V <+: n'.unconnected := by
  intro n a n' hf hp hr
  simp only [Network.connect, StateT.run_bind, StateT.run_get, pure_bind] at hr
  split at hr
  · rename_i h hh
    obtain ⟨⟨closed, n₁⟩, h₁, h₂⟩ := Net.bind_ok hr
    obtain ⟨sh₁, hrun₁, rfl⟩ := Network.liftStep_ok h₁
    obtain ⟨c, n₂, h₃, h₄⟩ := Net.run_bind_ok h₂
    obtain ⟨sh₂, hrun₂, rfl⟩ := Network.liftStep_ok h₃
    cases h₄
    -- the closed connections stay sound, and the new one is sound for the handle's endpoint
    obtain ⟨hset₁, hall⟩ := Step.Under.mapM_forall₂ (R := fun _ c' => c'.Sound)
      (fun c hc => (Op.run_handover (o := .close "Reconnecting") (by simp)
        (hf.sound c (List.mem_of_mem_filter hc))).mono fun _ h => h.1) n.shared closed sh₁ hf.settings hrun₁
    obtain ⟨hset₂, hsound, -, hrem⟩ := Connection.create_handover (s := s)
      (hf.spare h (List.mem_of_find?_eq_some hh)) true _ now sh₁ c sh₂ hset₁ hrun₂
    -- the connections kept are those to other endpoints
    have hother : c.remote ∉ (n.connections.filter (·.remote != h.remote)).map Connection.remote := by
      rw [hrem]
      intro ha
      obtain ⟨c₁, hc₁, he⟩ := List.mem_map.1 ha
      simp [he] at hc₁
    obtain ⟨hsound', hnodup⟩ := Connection.join (fun c₁ h₁ => hf.sound c₁ (List.mem_of_mem_filter h₁))
      (hf.remotes.sublist (List.Sublist.map _ List.filter_sublist)) hsound hother
    exact ⟨⟨hset₂, hsound', hnodup, Connection.spare_append (fun h₁ hh₁ => hf.spare h₁ (List.mem_of_mem_filter hh₁))
      (forall_mem_of_forall₂ hall), hf.delayed⟩, rfl, by simp, hp⟩
  · cases hr
    exact ⟨hf, rfl, by simp, hp⟩

theorem runCommand {V : List (Endpoint × Bytes)} {C : List Connection} (now : Nat) (cmd : Command) :
    Hands s (fun n => V <+: n.unconnected ∧ n.connections = C) (Network.runCommand now cmd) []
      fun _ n' => V <+: n'.unconnected ∧ ((∀ id hail, cmd ≠ .connect id hail) → n'.connections = C) := by
  cases cmd with
  | connect id hail =>
    exact (connect id hail now).mono (fun _ h => h.1) rfl fun _ _ h => ⟨h, fun hc => absurd rfl (hc id hail)⟩
  | unconnectedSend dest p =>
    -- queued after the others; the payload is marked sent and given back to the pool
    have hq : Hands s (fun n => V <+: n.unconnected ∧ n.connections = C) (Network.runCommand now (.unconnectedSend dest p))
        [] fun _ n' => V <+: n'.unconnected ∧ n'.connections = C :=
      bind crash fun _ => bind ((queueUnconnected dest _ p.data).mono (fun _ h => h.2) rfl fun _ _ h => h)
        fun _ => bind (liftStep (Step.Under.markSent p) fun _ _ h => h) fun _ =>
          modify fun _ hf hp => ⟨hf.of_eq rfl rfl rfl rfl, rfl, hp.2⟩
    exact hq.mono (fun _ h => h) rfl fun _ _ h => ⟨h.1, fun _ => h.2⟩
  | discover dest =>
    exact (bind get fun _ => (queueControl dest _ _).mono (fun _ h => h.2) rfl fun _ _ h => h).mono
      (fun _ h => h) rfl fun _ _ h => ⟨h.1, fun _ => h.2⟩
  | shutdown reason => exact pure fun _ h => ⟨h.1, fun _ => h.2⟩

theorem runCommands {V : List (Endpoint × Bytes)} {C : List Connection} {K : Prop} (now : Nat) :
    ∀ cmds : List Command, (K → ∀ cmd ∈ cmds, ∀ id hail, cmd ≠ .connect id hail) →
      Hands s (fun n => V <+: n.unconnected ∧ (K → n.connections = C)) (Network.runCommands now cmds) []
        fun _ n' => V <+: n'.unconnected ∧ (K → n'.connections = C)
  | [], _ => pure fun _ h => h
  | cmd :: rest, hK => by
    have hrest := runCommands (V := V) (C := C) now rest fun k c hc => hK k c (List.mem_cons_of_mem _ hc)
    have hcmd : Hands s (fun n => V <+: n.unconnected ∧ (K → n.connections = C)) (Network.runCommand now cmd) []
        fun _ n' => V <+: n'.unconnected ∧ (K → n'.connections = C) := by
      by_cases hk : K
      · -- the command is no connect, so the connections it finds stay
        exact (runCommand (C := C) now cmd).mono (fun _ h => ⟨h.1, h.2 hk⟩) rfl
          fun _ _ h => ⟨h.1, fun k => h.2 (hK k cmd List.mem_cons_self)⟩
      · exact ghost Network.connections fun C₀ => (runCommand (C := C₀) now cmd).mono (fun _ h => ⟨h.2.1, h.1⟩) rfl
          fun _ _ h => ⟨h.1, fun k => absurd k hk⟩
    cases cmd with
    | shutdown reason => exact pure fun _ h => h
    | _ => exact bind hcmd fun _ => hrest

theorem processCommands {U : List (Endpoint × Bytes)} {C : List Connection} {cmds : List Command} (now : Nat) :
    Hands s (fun n => n.unconnected = U ∧ n.connections = C ∧ n.commands = cmds) (Network.processCommands now) []
      fun _ n' => U <+: n'.unconnected ∧ ((∀ id hail, Command.connect id hail ∉ cmds) → n'.connections = C) := by
  intro n a n' hf ⟨hU, hC, hcmds⟩ hr
  rw [Network.processCommands, StateT.run_bind, StateT.run_get, pure_bind, StateT.run_bind, StateT.run_set,
    pure_bind] at hr
  dsimp only at hr
  have hf₁ : Network.Flowing s { n with commands := [] } := hf.of_eq rfl rfl rfl rfl
  have hK : (∀ id hail, Command.connect id hail ∉ cmds) → ∀ cmd ∈ n.commands, ∀ id hail, cmd ≠ .connect id hail :=
    fun k cmd hc id hail he => k id hail (hcmds ▸ he ▸ hc)
  generalize (∀ id hail, Command.connect id hail ∉ cmds) = K at hK ⊢
  refine (bind (E := []) (runCommands (V := U) (C := C) now n.commands hK) fun p => ?_).run_from
    (Q := fun _ n' => U <+: n'.unconnected ∧ (K → n'.connections = C)) hf₁ ⟨by simp [hU], fun _ => hC⟩ rfl hr
  obtain ⟨reason, rest⟩ := p
  -- the commands not run go back to the queue, which nothing here reads
  refine bind (D := []) (E := []) (modify (R := fun n => U <+: n.unconnected ∧ (K → n.connections = C))
    fun _ hf hp => ⟨hf.of_eq rfl rfl rfl rfl, rfl, hp⟩) fun _ => ?_
  split
  · exact pure fun _ h => h
  · exact bind get fun _ => pure fun _ h => h.2

end Hands

end Net

end ReliableUdp
