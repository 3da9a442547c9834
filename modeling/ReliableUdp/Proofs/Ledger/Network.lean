import ReliableUdp.Proofs.Ledger.Connection
import ReliableUdp.Net.Loop
import Mathlib.Algebra.Order.BigOperators.Group.List

/-!
# The network loop keeps the payload ledger

`Network.Sound`: the books count exactly the references of the connections, the spare handles
and the commands, and every connection is tidy. Every part of the loop keeps it
(`Net.Conserves`).
-/

namespace ReliableUdp

def Command.holds : Command → Multiset Nat
  | .unconnectedSend _ p => {p.id}
  | _ => 0

theorem sum_map_set {α : Type} (f : α → Multiset Nat) :
    ∀ (l : List α) (i : Nat) (x : α) (hi : i < l.length), ((l.set i x).map f).sum + f l[i] = (l.map f).sum + f x
  | [], _, _, hi => absurd hi (Nat.not_lt_zero _)
  | a :: l, 0, x, _ => by
    simp only [List.set_cons_zero, List.map_cons, List.sum_cons, List.getElem_cons_zero]
    abel
  | a :: l, i + 1, x, hi => by
    have ih := sum_map_set f l i x (by simpa using hi)
    simp only [List.set_cons_succ, List.map_cons, List.sum_cons, List.getElem_cons_succ]
    rw [add_assoc, ih, ← add_assoc]

theorem sum_map_filter {α : Type} (f : α → Multiset Nat) (p : α → Bool) (l : List α) :
    ((l.filter p).map f).sum + ((l.filter fun a => !p a).map f).sum = (l.map f).sum := by
  rw [← List.sum_append, ← List.map_append]
  exact ((List.filter_append_perm p l).map f).sum_eq

theorem Connection.holds_closed {c : Connection} (ht : c.Tidy) (hd : c.status = .disconnected) :
    c.holds = c.handle.holds := by
  simp [Connection.holds, SendWindow.held, ht.closed hd]

theorem Connection.sum_holds_closed {l : List Connection} (h : ∀ c ∈ l, c.Tidy ∧ c.status = .disconnected) :
    ((l.map (·.handle)).map Handle.holds).sum = (l.map Connection.holds).sum := by
  rw [List.map_map]
  congr 1
  exact List.map_congr_left fun c hc => (Connection.holds_closed (h c hc).1 (h c hc).2).symm

theorem Connection.kept_all {P : Connection → Prop} {l l' : List Connection}
    (h : List.Forall₂ (fun c c' => Connection.Kept c c' ∧ P c') l l') :
    l'.map (·.handle.id) = l.map (·.handle.id) ∧ ∀ c' ∈ l', c'.Tidy ∧ P c' := by
  induction h with
  | nil => simp
  | cons hr _ ih =>
    refine ⟨by simp [hr.1.1, ih.1], fun c' hc' => ?_⟩
    rcases List.mem_cons.1 hc' with rfl | hc'
    · exact ⟨hr.1.2, hr.2⟩
    · exact ih.2 c' hc'

@[simp] theorem Handle.holds_create (id : Nat) (remote : Endpoint) (maxPayload : Nat) :
    (Handle.create id remote maxPayload).holds = 0 := rfl

namespace Network

def handleIds (n : Network) : List Nat := n.connections.map (·.handle.id) ++ n.handles.map (·.id)

def holds (n : Network) : Multiset Nat :=
  (n.connections.map Connection.holds).sum + (n.handles.map Handle.holds).sum +
    (n.commands.map Command.holds).sum

/-- The books count the references the network holds and `pre` more; every connection is tidy
and satisfies `P`; the handles are numbered `0, …, nextHandle - 1`, each once. -/
structure Sound (P : Connection → Prop) (e : Nat) (pre : Multiset Nat) (n : Network) : Prop where
  books : n.shared.pool.Books (n.holds + pre) e
  tidy : ∀ c ∈ n.connections, c.Tidy ∧ P c
  ids : n.handleIds.Perm (List.range n.nextHandle)

theorem holds_set {n : Network} {i : Nat} (hi : i < n.connections.length) (c' : Connection) :
    ({ n with connections := n.connections.set i c' } : Network).holds + n.connections[i].holds =
      n.holds + c'.holds := by
  have key := sum_map_set Connection.holds n.connections i c' hi
  simp only [holds]
  rw [add_right_comm, add_right_comm _ _ n.connections[i].holds, key]
  abel

theorem handleIds_set {n : Network} {i : Nat} (hi : i < n.connections.length) {c' : Connection}
    (hid : c'.handle.id = n.connections[i].handle.id) :
    ({ n with connections := n.connections.set i c' } : Network).handleIds = n.handleIds := by
  have hlen : i < (n.connections.map (·.handle.id)).length := by simpa using hi
  have hget : (n.connections.map (·.handle.id))[i] = c'.handle.id := by
    simp [hid]
  simp only [handleIds, List.map_set, ← hget, List.set_getElem_self]

theorem Sound.of_eq {P : Connection → Prop} {e : Nat} {pre : Multiset Nat} {n n' : Network}
    (hs : n.Sound P e pre) (h₁ : n'.shared.pool = n.shared.pool) (h₂ : n'.connections = n.connections)
    (h₃ : n'.handles = n.handles) (h₄ : n'.commands = n.commands) (h₅ : n'.nextHandle = n.nextHandle) :
    n'.Sound P e pre where
  books := by simpa [holds, h₁, h₂, h₃, h₄] using hs.books
  tidy := h₂ ▸ hs.tidy
  ids := by simpa [handleIds, h₂, h₃, h₅] using hs.ids

theorem filter_id_eq {l : List Handle} (hnd : (l.map (·.id)).Nodup) {h : Handle} (hh : h ∈ l) :
    l.filter (·.id == h.id) = [h] := by
  induction l with
  | nil => cases hh
  | cons a t ih =>
    rw [List.map_cons, List.nodup_cons] at hnd
    rcases List.mem_cons.1 hh with rfl | hh
    · have hnone : t.filter (·.id == h.id) = [] := List.filter_eq_nil_iff.2 fun b hb heq =>
        hnd.1 (by rw [← beq_iff_eq.1 heq]; exact List.mem_map_of_mem hb)
      simp [hnone]
    · have hne : a.id ≠ h.id := fun heq => hnd.1 (by rw [heq]; exact List.mem_map_of_mem hh)
      simp [hne, ih hnd.2 hh]

theorem Sound.handles_nodup {P : Connection → Prop} {e : Nat} {pre : Multiset Nat} {n : Network}
    (hs : n.Sound P e pre) : (n.handles.map (·.id)).Nodup :=
  (hs.ids.nodup_iff.2 List.nodup_range).of_append_right

theorem Sound.take_handle {P : Connection → Prop} {e : Nat} {pre : Multiset Nat} {n : Network}
    (hs : n.Sound P e pre) {h : Handle} (hmem : h ∈ n.handles) :
    h.holds + ((n.handles.filter fun a => !(a.id == h.id)).map Handle.holds).sum =
        (n.handles.map Handle.holds).sum ∧
      (h.id :: (n.handles.filter fun a => !(a.id == h.id)).map (·.id)).Perm (n.handles.map (·.id)) := by
  have hone := filter_id_eq hs.handles_nodup hmem
  have hsum := sum_map_filter Handle.holds (·.id == h.id) n.handles
  have hperm := (List.filter_append_perm (·.id == h.id) n.handles).map (·.id)
  rw [hone, List.map_singleton, List.sum_singleton] at hsum
  rw [hone] at hperm
  exact ⟨hsum, hperm⟩

theorem Sound.weaken {P P' : Connection → Prop} {e : Nat} {pre : Multiset Nat} {n : Network}
    (hs : n.Sound P e pre) (hw : ∀ c, P c → P' c) : n.Sound P' e pre :=
  ⟨hs.books, fun c hc => (hs.tidy c hc).imp_right (hw c), hs.ids⟩

theorem liftStep_ok {α : Type} {y : Step α} {n n' : Network} {a : α} (h : (liftStep y).run n = .ok (a, n')) :
    ∃ sh, y.run n.shared = .ok (a, sh) ∧ n' = { n with shared := sh } := by
  simp only [liftStep, StateT.run] at h
  cases hy : y n.shared with
  | error err =>
    rw [hy] at h
    cases h
  | ok p =>
    rw [hy] at h
    cases h
    exact ⟨p.2, hy, rfl⟩

end Network

namespace Net

variable {α β : Type} {P : Connection → Prop} {e : Nat} {pre : Multiset Nat} {x : Net α}
  {post : α → Multiset Nat} {Q R : α → Prop}

/-- A successful run of `x` on a sound network, with `pre` in flight, leaves a sound network with
`post a` in flight; no gone payload comes back, and `Q a` holds. -/
def Conserves (P : Connection → Prop) (e : Nat) (pre : Multiset Nat) (x : Net α) (post : α → Multiset Nat)
    (Q : α → Prop) : Prop :=
  ∀ n a n', n.Sound P e pre → x.run n = .ok (a, n') →
    n'.Sound P e (post a) ∧ Pool.Keeps n.shared.pool n'.shared.pool ∧ Q a

theorem bind_ok {ε γ δ : Type} {x : Except ε γ} {f : γ → Except ε δ} {b : δ} (h : x >>= f = .ok b) :
    ∃ a, x = .ok a ∧ f a = .ok b := by
  cases x with
  | error err => cases h
  | ok a => exact ⟨a, rfl, h⟩

theorem run_bind_ok {y : Net α} {f : α → Net β} {n n' : Network} {b : β}
    (h : (y >>= f).run n = .ok (b, n')) : ∃ a n₁, y.run n = .ok (a, n₁) ∧ (f a).run n₁ = .ok (b, n') := by
  rw [StateT.run_bind] at h
  obtain ⟨⟨a, n₁⟩, h₁, h₂⟩ := bind_ok h
  exact ⟨a, n₁, h₁, h₂⟩

namespace Conserves

theorem pure {a : α} (hq : Q a) (hp : post a = pre) : Conserves P e pre (Pure.pure a : Net α) post Q := by
  intro n b n' hs hr
  cases hr
  exact ⟨hp ▸ hs, Pool.Keeps.refl _, hq⟩

theorem bind {f : α → Net β} {K : α → Multiset Nat} {post' : β → Multiset Nat} {S : β → Prop}
    (hx : Conserves P e pre x K Q) (hf : ∀ a, Q a → Conserves P e (K a) (f a) post' S) :
    Conserves P e pre (x >>= f) post' S := by
  intro n b n' hs hr
  obtain ⟨a, n₁, h₁, h₂⟩ := run_bind_ok hr
  obtain ⟨hs₁, hk₁, hq⟩ := hx n a n₁ hs h₁
  obtain ⟨hs₂, hk₂, hS⟩ := hf a hq n₁ b n' hs₁ h₂
  exact ⟨hs₂, hk₁.trans hk₂, hS⟩

theorem run_from {y : Net β} {post' : β → Multiset Nat} {S : β → Prop} {n n₁ n' : Network} {b : β}
    (hy : Conserves P e pre y post' S) (hr : y.run n₁ = .ok (b, n')) (hs : n₁.Sound P e pre)
    (hk : Pool.Keeps n.shared.pool n₁.shared.pool) :
    n'.Sound P e (post' b) ∧ Pool.Keeps n.shared.pool n'.shared.pool ∧ S b :=
  let ⟨hs', hk', hq⟩ := hy n₁ b n' hs hr
  ⟨hs', hk.trans hk', hq⟩

theorem done {a : α} : Conserves P e pre (Pure.pure a : Net α) (fun _ => pre) fun _ => True :=
  pure trivial rfl

theorem mono (hx : Conserves P e pre x post Q) (h : ∀ a, Q a → R a) : Conserves P e pre x post R :=
  fun n a n' hs hr => (hx n a n' hs hr).imp_right fun h' => h'.imp_right (h a)

theorem congr {pre' : Multiset Nat} {post' : α → Multiset Nat} (hx : Conserves P e pre x post Q)
    (hpre : pre' = pre) (hpost : ∀ a, Q a → post a = post' a) : Conserves P e pre' x post' Q := by
  intro n a n' hs hr
  obtain ⟨hs', hk, hq⟩ := hx n a n' (hpre ▸ hs) hr
  exact ⟨hpost a hq ▸ hs', hk, hq⟩

theorem lift {y : Step α} (hy : ∀ H, Step.Conserves H e 0 y (fun _ => 0) Q) :
    Conserves P e pre (Network.liftStep y) (fun _ => pre) Q := by
  intro n a n' hs hr
  obtain ⟨sh, hy', rfl⟩ := Network.liftStep_ok hr
  obtain ⟨hb, hk, hq⟩ := hy (n.holds + pre) n.shared a sh (by simpa using hs.books) hy'
  have hb' : sh.pool.Books (n.holds + pre) e := by simpa using hb
  exact ⟨⟨hb', hs.tidy, hs.ids⟩, hk, hq⟩

theorem emit (g : Released → Released) : Conserves P e pre (Network.emit g) (fun _ => pre) fun _ => True :=
  lift fun _ => Step.Conserves.emit g

theorem countStat (g : Stats → Stats) :
    Conserves P e pre (Network.countStat g) (fun _ => pre) fun _ => True :=
  lift fun _ => Step.Conserves.count g

theorem onConnection {dest : Endpoint} {f : Connection → Step Connection}
    (hf : ∀ H c, c.Tidy → P c → Step.Conserves H e c.holds (f c) Connection.holds
      fun c' => Connection.Kept c c' ∧ P c') :
    Conserves P e pre (Network.onConnection dest f) (fun _ => pre) fun _ => True := by
  intro n b n' hs hr
  simp only [Network.onConnection, StateT.run_bind, StateT.run_get, pure_bind] at hr
  split at hr
  · split at hr
    · rename_i _ i _ _ c hc
      obtain ⟨hi, rfl⟩ := List.getElem?_eq_some_iff.1 hc
      obtain ⟨c', n₁, h₁, h₂⟩ := run_bind_ok hr
      obtain ⟨sh, hrun, rfl⟩ := Network.liftStep_ok h₁
      simp only [StateT.run_bind, StateT.run_modify, pure_bind, StateT.run_pure] at h₂
      cases h₂
      have hmem := List.getElem_mem hi
      obtain ⟨ht, hP⟩ := hs.tidy _ hmem
      -- the connection's references are taken out of the network's, and the new ones put in
      have hle : n.connections[i].holds ≤ n.holds + pre :=
        le_add_right (le_add_right (le_add_right (List.le_sum_of_mem (List.mem_map_of_mem hmem))))
      obtain ⟨hb, hk, hkept, hP'⟩ := hf (n.holds + pre - n.connections[i].holds) _ ht hP n.shared c' sh
        (by rw [tsub_add_cancel_of_le hle]; exact hs.books) hrun
      have hset := Network.holds_set hi c'
      refine ⟨⟨?_, fun c₂ h₂ => ?_, ?_⟩, hk, trivial⟩
      · convert hb using 1
        apply add_right_cancel (b := n.connections[i].holds)
        rw [add_right_comm, add_right_comm _ c'.holds, tsub_add_cancel_of_le hle]
        exact (congrArg (· + pre) hset).trans (add_right_comm _ _ _)
      · rcases List.mem_or_eq_of_mem_set h₂ with h₂ | rfl
        · exact hs.tidy c₂ h₂
        · exact ⟨hkept.2, hP'⟩
      · exact (Network.handleIds_set hi hkept.1).symm ▸ hs.ids
    · cases hr
      exact ⟨hs, Pool.Keeps.refl _, trivial⟩
  · cases hr
    exact ⟨hs, Pool.Keeps.refl _, trivial⟩

theorem modify_quiet {g : Network → Network} (hg : ∀ n, (g n).shared.pool = n.shared.pool ∧
      (g n).connections = n.connections ∧ (g n).handles = n.handles ∧ (g n).commands = n.commands ∧
      (g n).nextHandle = n.nextHandle) :
    Conserves P e pre (modify g) (fun _ => pre) fun _ => True := by
  intro n a n' hs hr
  cases hr
  obtain ⟨h₁, h₂, h₃, h₄, h₅⟩ := hg n
  exact ⟨hs.of_eq h₁ h₂ h₃ h₄ h₅, h₁ ▸ Pool.Keeps.refl _, trivial⟩

theorem sendNow (hP : ∀ c c', P c → Connection.Kept c c' → c'.status = .disconnected → P c') (dest : Endpoint)
    (d : Bytes) : Conserves P e pre (Network.sendNow dest d) (fun _ => pre) fun _ => True := by
  intro n a n' hs hr
  simp only [Network.sendNow, StateT.run_bind, StateT.run_get, StateT.run_set, pure_bind] at hr
  -- the rest runs on the network with the socket that sent
  have hs' : Network.Sound P e pre { n with socket := (n.socket.send dest d).2 } := hs.of_eq rfl rfl rfl rfl rfl
  have hclose : Conserves P e pre (Network.onConnection dest Connection.forciblyClosed) (fun _ => pre)
      fun _ => True :=
    onConnection fun _ c ht hc => (Connection.close_books ht _).mono fun c' h => ⟨h.1, hP c c' hc h.1 h.2⟩
  split at hr
  · exact (countStat _).run_from hr hs' (Pool.Keeps.refl _)
  · exact (bind hclose fun _ _ => done).run_from hr hs' (Pool.Keeps.refl _)
  · exact (bind hclose fun _ _ => done).run_from hr hs' (Pool.Keeps.refl _)
  · split at hr
    · cases hr
    · exact (emit _).run_from hr hs' (Pool.Keeps.refl _)

theorem get_quiet : Conserves P e pre (get : Net Network) (fun _ => pre) fun _ => True := by
  intro n a n' hs hr
  cases hr
  exact ⟨hs, Pool.Keeps.refl _, trivial⟩

theorem crash {r : Except Crash α} : Conserves P e pre (StateT.lift r : Net α) (fun _ => pre) fun _ => True := by
  intro n a n' hs hr
  cases r with
  | error err => cases hr
  | ok b =>
    cases hr
    exact ⟨hs, Pool.Keeps.refl _, trivial⟩

theorem forM_quiet {γ : Type} {f : γ → Net Unit} (hf : ∀ a, Conserves P e pre (f a) (fun _ => pre) fun _ => True) :
    ∀ l : List γ, Conserves P e pre (l.forM f) (fun _ => pre) fun _ => True
  | [] => done
  | a :: l => by
    simp only [List.forM]
    exact bind (hf a) fun _ _ => forM_quiet hf l

section Sending

variable (hP : ∀ c c', P c → Connection.Kept c c' → c'.status = .disconnected → P c')
include hP

theorem sendDatagram (dest : Endpoint) (d : Bytes) (now : Nat) :
    Conserves P e pre (Network.sendDatagram dest d now) (fun _ => pre) fun _ => True := by
  unfold Network.sendDatagram
  refine bind get_quiet fun _ _ => ?_
  dsimp only
  split
  · exact bind get_quiet fun _ _ => bind crash fun _ _ => modify_quiet fun _ => ⟨rfl, rfl, rfl, rfl, rfl⟩
  · exact sendNow hP dest d

theorem sendAll (ds : List (Endpoint × Bytes)) (now : Nat) :
    Conserves P e pre (Network.sendAll ds now) (fun _ => pre) fun _ => True :=
  forM_quiet (fun _ => sendDatagram hP _ _ now) ds

theorem sendUnconnected (now : Nat) :
    Conserves P e pre (Network.sendUnconnected now) (fun _ => pre) fun _ => True := by
  intro n a n' hs hr
  simp only [Network.sendUnconnected, StateT.run_bind, StateT.run_get, StateT.run_set, pure_bind] at hr
  exact (sendAll hP _ now).run_from hr (hs.of_eq rfl rfl rfl rfl rfl) (Pool.Keeps.refl _)

theorem sendDelayed (now : Nat) :
    Conserves P e pre (Network.sendDelayed now) (fun _ => pre) fun _ => True := by
  intro n a n' hs hr
  simp only [Network.sendDelayed, StateT.run_bind, StateT.run_get, StateT.run_set, pure_bind] at hr
  exact (forM_quiet (fun _ => sendNow hP _ _) _).run_from hr (hs.of_eq rfl rfl rfl rfl rfl) (Pool.Keeps.refl _)

theorem sendConnectionDatagrams (hT : ∀ c, P c → P c.takeDatagrams.2) (now : Nat) :
    Conserves P e pre (Network.sendConnectionDatagrams now) (fun _ => pre) fun _ => True := by
  intro n a n' hs hr
  simp only [Network.sendConnectionDatagrams, StateT.run_bind, StateT.run_get, StateT.run_set,
    pure_bind] at hr
  refine (sendAll hP _ now).run_from hr ⟨?_, fun c hc => ?_, ?_⟩ (Pool.Keeps.refl _)
  · have hmap : (n.connections.map fun c => c.takeDatagrams.2).map Connection.holds =
        n.connections.map Connection.holds := by
      rw [List.map_map]
      rfl
    have hb := hs.books
    simp only [Network.holds] at hb ⊢
    rwa [hmap]
  · obtain ⟨c₀, hc₀, rfl⟩ := List.mem_map.1 hc
    exact ⟨(hs.tidy c₀ hc₀).1.of_eq rfl rfl, hT c₀ (hs.tidy c₀ hc₀).2⟩
  · simpa [Network.handleIds, Function.comp_def, Connection.takeDatagrams] using hs.ids

end Sending

theorem removeDisconnected : Conserves P e pre Network.removeDisconnected (fun _ => pre) fun _ => True := by
  intro n a n' hs hr
  cases hr
  have hne : ∀ c : Connection, decide (c.status ≠ .disconnected) = !decide (c.status = .disconnected) :=
    fun _ => decide_not
  have hkept := List.filter_congr (l := n.connections) fun c _ => hne c
  -- a closed connection keeps nothing for resending: its references are its handle's
  have hgone := Connection.sum_holds_closed (l := n.connections.filter (·.status = .disconnected)) fun c hc =>
    ⟨(hs.tidy c (List.mem_filter.1 hc).1).1, of_decide_eq_true (List.mem_filter.1 hc).2⟩
  refine ⟨⟨?_, fun c hc => hs.tidy c (List.mem_of_mem_filter hc), ?_⟩, Pool.Keeps.refl _, trivial⟩
  · have hsplit := sum_map_filter Connection.holds (fun c => decide (c.status = .disconnected)) n.connections
    have hb := hs.books
    simp only [Network.holds, List.map_append, List.sum_append] at hb ⊢
    rw [hkept, hgone]
    rw [← hsplit] at hb
    convert hb using 2
    abel
  · have hperm := (List.filter_append_perm (fun c => decide (c.status = .disconnected)) n.connections).map
      (·.handle.id)
    rw [← hkept] at hperm
    refine List.Perm.trans ?_ hs.ids
    simp only [Network.handleIds, List.map_append, List.map_map, Function.comp_def] at hperm ⊢
    refine List.Perm.trans ?_ (hperm.append_right _)
    rw [List.perm_iff_count]
    intro x
    simp only [List.count_append]
    omega

theorem queueControl (dest : Endpoint) (k : Control) (payload : Bytes) :
    Conserves P e pre (Network.queueControl dest k payload) (fun _ => pre) fun _ => True :=
  bind crash fun _ _ => modify_quiet fun _ => ⟨rfl, rfl, rfl, rfl, rfl⟩

/-! ## Receiving

A received datagram may run any step of its connection, so from here on every connection
satisfies only the trivial `P`. -/

theorem onConnect (src : Endpoint) (app : String) (hail : Bytes) (now : Nat) :
    Conserves (fun _ => True) e pre (Network.onConnect src app hail now) (fun _ => pre) fun _ => True := by
  intro n a n' hs hr
  simp only [Network.onConnect, StateT.run_bind, StateT.run_get, pure_bind] at hr
  split at hr
  · exact (bind (emit _) fun _ _ => queueControl _ _ _).run_from hr hs (Pool.Keeps.refl _)
  · obtain ⟨⟨c, n₁⟩, h₁, h₂⟩ := bind_ok hr
    obtain ⟨sh, hrun, rfl⟩ := Network.liftStep_ok h₁
    cases h₂
    obtain ⟨hb, hk, hid, ht⟩ := Connection.incoming_books (H := n.holds + pre) _ hail now n.shared c sh
      (by simpa using hs.books) hrun
    refine ⟨⟨?_, fun c₁ h₁ => ?_, ?_⟩, hk, trivial⟩
    · convert hb using 1
      simp only [Network.holds, List.map_append, List.sum_append, List.map_cons, List.map_nil,
        List.sum_cons, List.sum_nil, add_zero]
      abel
    · rcases List.mem_append.1 h₁ with h₁ | h₁
      · exact hs.tidy c₁ h₁
      · rw [List.mem_singleton.1 h₁]
        exact ⟨ht, trivial⟩
    -- the new connection's handle takes the next number
    · rw [List.range_succ]
      refine List.Perm.trans ?_ (hs.ids.append_right _)
      simp only [Network.handleIds, List.map_append, List.map_cons, List.map_nil, hid, Handle.create]
      rw [List.perm_iff_count]
      intro x
      simp only [List.count_append]
      omega

theorem onLooseControl (src : Endpoint) (k : Control) (payload : Bytes) (now : Nat) :
    Conserves (fun _ => True) e pre (Network.onLooseControl src k payload now) (fun _ => pre)
      fun _ => True := by
  unfold Network.onLooseControl
  refine bind get_quiet fun _ _ => ?_
  split
  · split
    · exact bind (onConnect _ _ _ now) fun _ _ => done
    · exact done
  · split
    · dsimp only
      split
      · exact bind (queueControl _ _ _) fun _ _ => done
      · exact done
    · exact done
  · exact bind (emit _) fun _ _ => done
  · exact done

theorem onMessage (src : Endpoint) (h : Header) (payload : Bytes) (now : Nat) :
    Conserves (fun _ => True) e pre (Network.onMessage src h payload now) (fun _ => pre) fun _ => True := by
  unfold Network.onMessage
  refine bind (onConnection fun _ c ht _ =>
    (Connection.onMessage_books ht h payload now).mono fun _ h' => ⟨h', trivial⟩) fun _ _ => ?_
  split
  · exact done
  · split
    · split
      · refine bind (onLooseControl _ _ _ now) fun _ _ => ?_
        split
        · exact emit _
        · exact done
      · exact done
    · exact emit _
    · exact emit _

theorem onDatagram (src : Endpoint) (d : Bytes) (now : Nat) :
    Conserves (fun _ => True) e pre (Network.onDatagram src d now) (fun _ => pre) fun _ => True := by
  refine forM_quiet (fun r => ?_) _
  split
  · exact onMessage _ _ _ now
  · exact emit _

theorem receiveFor (now : Nat) :
    ∀ fuel, Conserves (fun _ => True) e pre (Network.receiveFor now fuel) (fun _ => pre) fun _ => True
  | 0 => done
  | fuel + 1 => by
    intro n a n' hs hr
    simp only [Network.receiveFor, StateT.run_bind, StateT.run_get, StateT.run_set, pure_bind] at hr
    have hs' : Network.Sound (fun _ => True) e pre { n with socket := n.socket.receive.2 } :=
      hs.of_eq rfl rfl rfl rfl rfl
    split at hr
    · exact (bind (countStat _) fun _ _ => bind (onDatagram _ _ now) fun _ _ => receiveFor now fuel).run_from
        hr hs' (Pool.Keeps.refl _)
    · exact (receiveFor now fuel).run_from hr hs' (Pool.Keeps.refl _)
    · exact done.run_from hr hs' (Pool.Keeps.refl _)
    · exact done.run_from hr hs' (Pool.Keeps.refl _)

theorem receive (now : Nat) :
    Conserves (fun _ => True) e pre (Network.receive now) (fun _ => pre) fun _ => True :=
  bind get_quiet fun _ _ => receiveFor now _

/-! ## The loop step -/

theorem mapConnections {S : Connection → Prop} {f : Connection → Step Connection} {k : Net β}
    {post : β → Multiset Nat} {Q : β → Prop} (hw : ∀ c, S c → P c)
    (hf : ∀ H c, c.Tidy → P c → Step.Conserves H e c.holds (f c) Connection.holds
      fun c' => Connection.Kept c c' ∧ S c')
    (hk : Conserves S e pre k post Q) :
    Conserves P e pre (do
      let n ← get
      let cs ← Network.liftStep (n.connections.mapM f)
      modify fun n => { n with connections := cs }
      k) post Q := by
  intro n b n' hs hr
  simp only [StateT.run_bind, StateT.run_get, pure_bind] at hr
  obtain ⟨⟨cs, n₁⟩, h₁, h₂⟩ := bind_ok hr
  obtain ⟨sh, hrun, rfl⟩ := Network.liftStep_ok h₁
  obtain ⟨⟨_, n₂⟩, h₃, h₄⟩ := bind_ok h₂
  cases h₃
  -- the connections' references are handed to the steps, the rest stays aside
  obtain ⟨hb, hk₁, hall⟩ := Step.Conserves.mapM n.connections
    (fun H c hc => hf H c (hs.tidy c hc).1 (hs.tidy c hc).2)
    ((n.handles.map Handle.holds).sum + (n.commands.map Command.holds).sum + pre) n.shared cs sh
    (by convert hs.books using 1; simp only [Network.holds]; abel) hrun
  obtain ⟨hids, htidy⟩ := Connection.kept_all hall
  obtain ⟨hs', hk', hq⟩ := hk _ b n' ⟨by convert hb using 1; simp only [Network.holds]; abel, htidy,
    by simpa [Network.handleIds, hids] using hs.ids⟩ h₄
  exact ⟨hs'.weaken hw, hk₁.trans hk', hq⟩

/-- A loop step keeps the ledger: every connection's periodic step, the datagrams going out,
the dropped connections and the datagrams received. -/
theorem step (now : Nat) :
    Conserves (fun _ => True) e pre (Network.step now) (fun _ => pre) fun _ => True := by
  have hP : ∀ c c' : Connection, True → c.Kept c' → c'.status = .disconnected → True :=
    fun _ _ _ _ _ => trivial
  unfold Network.step
  exact mapConnections (fun _ h => h)
    (fun _ c ht _ => (Connection.heartbeat_books ht now).mono fun _ h => ⟨h, trivial⟩)
    (bind (sendConnectionDatagrams hP (fun _ _ => trivial) now) fun _ _ =>
      bind removeDisconnected fun _ _ => bind (sendUnconnected hP now) fun _ _ =>
        bind (sendDelayed hP now) fun _ _ => receive now)

/-! ## Connecting and the commands -/

theorem connect (id : Nat) (hail : Bytes) (now : Nat) :
    Conserves (fun _ => True) e pre (Network.connect id hail now) (fun _ => pre) fun _ => True := by
  intro n a n' hs hr
  simp only [Network.connect, StateT.run_bind, StateT.run_get, pure_bind] at hr
  split at hr
  · rename_i h hh
    obtain ⟨⟨closed, n₁⟩, h₁, h₂⟩ := bind_ok hr
    obtain ⟨sh₁, hrun₁, rfl⟩ := Network.liftStep_ok h₁
    dsimp only at h₂
    obtain ⟨c, n₂, h₃, h₄⟩ := run_bind_ok h₂
    obtain ⟨sh₂, hrun₂, rfl⟩ := Network.liftStep_ok h₃
    cases h₄
    have hmem := List.mem_of_find?_eq_some hh
    obtain rfl : h.id = id := by simpa using List.find?_some hh
    -- the connections split by their endpoint, the handles by their number
    have hC := sum_map_filter Connection.holds (·.remote == h.remote) n.connections
    obtain ⟨hH, hHp⟩ := hs.take_handle hmem
    obtain ⟨hb₁, hk₁, hall⟩ := Step.Conserves.mapM (n.connections.filter (·.remote == h.remote))
      (fun H c hc => Connection.close_books (hs.tidy c (List.mem_of_mem_filter hc)).1 "Reconnecting")
      (((n.connections.filter fun c => !(c.remote == h.remote)).map Connection.holds).sum + h.holds +
        ((n.handles.filter fun a => !(a.id == h.id)).map Handle.holds).sum +
        (n.commands.map Command.holds).sum + pre) n.shared closed sh₁
      (by convert hs.books using 1; simp only [Network.holds]; rw [← hC, ← hH]; abel) hrun₁
    obtain ⟨hids, hclosed⟩ := Connection.kept_all hall
    beta_reduce at hb₁
    obtain ⟨hb₂, hk₂, hcid, hct⟩ := Connection.outgoing_books
      (H := ((n.connections.filter fun c => !(c.remote == h.remote)).map Connection.holds).sum +
        ((n.handles.filter fun a => !(a.id == h.id)).map Handle.holds).sum +
        (n.commands.map Command.holds).sum + pre + (closed.map Connection.holds).sum)
      h hail now sh₁ c sh₂ (by convert hb₁ using 1; abel) hrun₂
    -- the closed connections' references are their handles'
    have hgone := Connection.sum_holds_closed hclosed
    refine ⟨⟨?_, fun c₁ h₁ => ?_, ?_⟩, hk₁.trans hk₂, trivial⟩
    · convert hb₂ using 1
      simp only [Network.holds, List.map_append, List.sum_append, List.map_cons, List.map_nil,
        List.sum_cons, List.sum_nil, add_zero, hgone, bne]
      abel
    · rcases List.mem_append.1 h₁ with h₁ | h₁
      · exact hs.tidy c₁ (List.mem_of_mem_filter h₁)
      · rw [List.mem_singleton.1 h₁]
        exact ⟨hct, trivial⟩
    · have hCp := (List.filter_append_perm (·.remote == h.remote) n.connections).map (·.handle.id)
      refine List.Perm.trans ?_ ((hCp.append hHp).trans hs.ids)
      simp only [Network.handleIds, List.map_append, List.map_cons, List.map_nil, List.map_map,
        Function.comp_def, hcid, bne] at hids ⊢
      rw [hids, List.perm_iff_count]
      intro x
      simp only [List.count_append, List.count_cons, List.count_nil]
      omega
  · cases hr
    exact ⟨hs, Pool.Keeps.refl _, trivial⟩

theorem runCommand (now : Nat) (cmd : Command) :
    Conserves (fun _ => True) e (pre + cmd.holds) (Network.runCommand now cmd) (fun _ => pre)
      fun _ => True := by
  cases cmd with
  | connect id hail => exact (connect id hail now).congr (add_zero _) fun _ _ => rfl
  | unconnectedSend dest p =>
    refine bind crash fun _ _ => bind (modify_quiet fun _ => ⟨rfl, rfl, rfl, rfl, rfl⟩) fun _ _ =>
      bind (lift fun _ => Step.Conserves.markSent p) fun _ _ => ?_
    intro n a n' hs hr
    cases hr
    have hb : n.shared.pool.Books (n.holds + pre + {p.id}) e := by
      rw [add_assoc]
      exact hs.books
    obtain ⟨hb', hk⟩ := hb.release_added
    exact ⟨⟨hb', hs.tidy, hs.ids⟩, hk, trivial⟩
  | discover dest => exact (bind get_quiet fun _ _ => queueControl _ _ _).congr (add_zero _) fun _ _ => rfl
  | shutdown reason => exact done.congr (add_zero _) fun _ _ => rfl

theorem runCommands (now : Nat) :
    ∀ cmds : List Command, Conserves (fun _ => True) e (pre + (cmds.map Command.holds).sum)
      (Network.runCommands now cmds) (fun r => pre + (r.2.map Command.holds).sum) fun _ => True
  | [] => pure trivial rfl
  | cmd :: rest => by
    have hrest := runCommands now rest
    have hpre : pre + ((cmd :: rest).map Command.holds).sum =
        pre + (rest.map Command.holds).sum + cmd.holds := by
      rw [List.map_cons, List.sum_cons]
      abel
    cases cmd with
    | shutdown reason => exact pure trivial (by simp [Command.holds])
    | connect id hail => exact (bind (runCommand now _) fun _ _ => hrest).congr hpre fun _ _ => rfl
    | unconnectedSend dest p => exact (bind (runCommand now _) fun _ _ => hrest).congr hpre fun _ _ => rfl
    | discover dest => exact (bind (runCommand now _) fun _ _ => hrest).congr hpre fun _ _ => rfl

theorem putBack (rest : List Command) :
    Conserves (fun _ => True) e (pre + (rest.map Command.holds).sum)
      (modify fun n => { n with commands := rest ++ n.commands }) (fun _ => pre) fun _ => True := by
  intro n a n' hs hr
  cases hr
  refine ⟨⟨?_, hs.tidy, hs.ids⟩, Pool.Keeps.refl _, trivial⟩
  convert hs.books using 1
  simp only [Network.holds, List.map_append, List.sum_append]
  abel

theorem processCommands (now : Nat) :
    Conserves (fun _ => True) e pre (Network.processCommands now) (fun _ => pre) fun _ => True := by
  intro n a n' hs hr
  rw [Network.processCommands, StateT.run_bind, StateT.run_get, pure_bind, StateT.run_bind,
    StateT.run_set, pure_bind] at hr
  dsimp only at hr
  -- the waiting commands are taken out, their payloads counted in flight
  have hs₀ : Network.Sound (fun _ => True) e (pre + (n.commands.map Command.holds).sum)
      { n with commands := [] } := by
    refine ⟨?_, hs.tidy, hs.ids⟩
    convert hs.books using 1
    simp only [Network.holds, List.map_nil, List.sum_nil, add_zero]
    abel
  refine (?_ : Conserves _ e _ _ (fun _ => pre) fun _ => True).run_from hr hs₀ (Pool.Keeps.refl _)
  refine bind (runCommands now n.commands) fun r _ => bind (putBack r.2) fun _ _ => ?_
  split
  · exact done
  · exact bind get_quiet fun _ _ => done

/-! ## Shutting down -/

theorem handOver :
    Conserves (·.status = .disconnected) e pre
      (modify fun n => { n with handles := n.handles ++ n.connections.map (·.handle), connections := [] })
      (fun _ => pre) fun _ => True := by
  intro n a n' hs hr
  cases hr
  have hgone := Connection.sum_holds_closed hs.tidy
  refine ⟨⟨?_, fun c hc => absurd hc List.not_mem_nil, ?_⟩, Pool.Keeps.refl _, trivial⟩
  · convert hs.books using 1
    simp only [Network.holds, List.map_append, List.sum_append, List.map_nil, List.sum_nil, hgone]
    abel
  · refine List.Perm.trans ?_ hs.ids
    simp only [Network.handleIds, List.map_nil, List.nil_append, List.map_append, List.map_map,
      Function.comp_def]
    exact List.perm_append_comm

theorem shutdown (reason : String) (now : Nat) :
    Conserves (fun _ => True) e pre (Network.shutdown reason now) (fun _ => pre) fun _ => True := by
  have hP : ∀ c c' : Connection, c.status = .disconnected → c.Kept c' → c'.status = .disconnected →
      c'.status = .disconnected := fun _ _ _ _ h => h
  unfold Network.shutdown
  refine bind (modify_quiet fun _ => ⟨rfl, rfl, rfl, rfl, rfl⟩) fun _ _ =>
    mapConnections (S := (·.status = .disconnected)) (fun _ _ => trivial)
      (fun _ c ht _ => Connection.finishDisconnect_books ht reason now) ?_
  refine bind (sendConnectionDatagrams hP (fun _ h => h) now) fun _ _ =>
    bind (sendUnconnected hP now) fun _ _ => ?_
  intro n a n' hs hr
  simp only [StateT.run_bind, StateT.run_get, StateT.run_set, pure_bind] at hr
  exact (bind (forM_quiet (fun _ => sendNow hP _ _) _) fun _ _ => handOver).run_from hr
    (hs.of_eq rfl rfl rfl rfl rfl) (Pool.Keeps.refl _)

end Conserves
end Net
end ReliableUdp
