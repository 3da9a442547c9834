import ReliableUdp.Proofs.Ledger.Network
import ReliableUdp.Net.Peer

/-!
# Every run of a peer keeps the payload ledger

Along every run of moves from a new peer, the pool counts exactly the references held to each
payload; a payload is returned once, with its last reference, and never counted again.
-/

namespace ReliableUdp

namespace Pool

theorem Books.retainEach {β : Type} {extra : Nat} {p : Payload} :
    ∀ (l : List β) {pool : Pool} {H : Multiset Nat}, pool.Books H extra → p.id ∈ H →
      (l.foldl (fun pool _ => pool.retain p) pool).Books (H + l.length • {p.id}) extra ∧
        Keeps pool (l.foldl (fun pool _ => pool.retain p) pool)
  | [], pool, _, hb, _ => by simpa using ⟨hb, Keeps.refl pool⟩
  | _ :: l, _, H, hb, hid => by
    obtain ⟨hb₁, hk₁⟩ := hb.retain hid
    obtain ⟨hb₂, hk₂⟩ := retainEach l hb₁ (Multiset.mem_add.2 (Or.inl hid))
    rw [List.foldl_cons]
    refine ⟨?_, hk₁.trans hk₂⟩
    rw [List.length_cons, succ_nsmul, ← add_assoc, add_right_comm]
    exact hb₂

end Pool

theorem Handle.id_enqueue (h : Handle) (q : Queued) (p : Priority) : (h.enqueue q p).id = h.id := by
  cases p <;> rfl

theorem Handle.holds_enqueue (h : Handle) (q : Queued) (p : Priority) :
    (h.enqueue q p).holds = h.holds + {q.payload.id} := by
  cases p <;> simp only [Handle.enqueue, Handle.holds, Handle.outbound, List.map_append, List.map_cons,
    List.map_nil, ← Multiset.coe_add, Multiset.coe_singleton] <;> abel

theorem sum_map_update {α : Type} (F : α → Multiset Nat) (key : α → Nat) (g : α → α) {X : Multiset Nat}
    (hg : ∀ a, F (g a) = F a + X) (id : Nat) :
    ∀ l : List α, ((l.map fun a => if key a == id then g a else a).map F).sum =
      (l.map F).sum + (l.map key).count id • X
  | [] => by simp
  | a :: l => by
    have ih := sum_map_update F key g hg id l
    by_cases ha : key a = id
    · have hb : (key a == id) = true := by simpa using ha
      simp only [List.map_cons, List.sum_cons, List.count_cons, hb, if_true, hg, ih, succ_nsmul]
      abel
    · have hb : ¬(key a == id) = true := by simpa using ha
      simp only [List.map_cons, List.sum_cons, List.count_cons, hb, Bool.false_eq_true, if_false, ih,
        add_zero]
      abel

namespace Network

variable {P : Connection → Prop} {e : Nat} {pre : Multiset Nat} {n : Network} {q : Queued}

theorem holds_modifyHandle (n : Network) (id : Nat) {f : Handle → Handle} {X : Multiset Nat}
    (hf : ∀ h, (f h).holds = h.holds + X) :
    (n.modifyHandle id f).holds = n.holds + n.handleIds.count id • X := by
  have hc := sum_map_update Connection.holds (·.handle.id) (fun c => { c with handle := f c.handle })
    (fun c => by simp only [Connection.holds, hf]; abel) id n.connections
  have hh := sum_map_update Handle.holds (·.id) f hf id n.handles
  simp only [holds, modifyHandle, handleIds, List.count_append, add_nsmul]
  rw [hc, hh]
  abel

theorem handleIds_modifyHandle (n : Network) (id : Nat) {f : Handle → Handle} (hf : ∀ h, (f h).id = h.id) :
    (n.modifyHandle id f).handleIds = n.handleIds := by
  simp only [handleIds, modifyHandle, List.map_map]
  congr 1 <;> refine List.map_congr_left fun a _ => ?_ <;> simp only [Function.comp_apply] <;> split <;>
    simp [hf]

theorem Sound.lt_of_mem (hs : n.Sound P e pre) {id : Nat} (h : id ∈ n.handleIds) : id < n.nextHandle :=
  List.mem_range.1 (hs.ids.subset h)

theorem Sound.count_id (hs : n.Sound P e pre) {id : Nat} (hid : id < n.nextHandle) :
    n.handleIds.count id = 1 := by
  rw [hs.ids.count_eq, List.count_eq_one_of_mem List.nodup_range (List.mem_range.2 hid)]

theorem Sound.modifyHandle {id : Nat} {f : Handle → Handle} {X : Multiset Nat}
    (hs : n.Sound (fun _ => True) e (pre + n.handleIds.count id • X))
    (hf : ∀ h, (f h).id = h.id ∧ (f h).holds = h.holds + X) :
    (n.modifyHandle id f).Sound (fun _ => True) e pre where
  books := by
    rw [holds_modifyHandle n id fun h => (hf h).2, add_assoc, add_comm _ pre]
    exact hs.books
  tidy c hc := by
    obtain ⟨c₀, hc₀, rfl⟩ := List.mem_map.1 hc
    refine ⟨?_, trivial⟩
    split
    · exact (hs.tidy c₀ hc₀).1.of_eq rfl rfl
    · exact (hs.tidy c₀ hc₀).1
  ids := (handleIds_modifyHandle n id fun h => (hf h).1) ▸ hs.ids

theorem Sound.newHandle (hs : n.Sound P e pre) (remote : Endpoint) : (n.newHandle remote).2.Sound P e pre where
  books := by simpa [Network.newHandle, holds] using hs.books
  tidy := hs.tidy
  ids := by
    simp only [Network.newHandle, List.range_succ]
    refine List.Perm.trans ?_ (hs.ids.append_right _)
    simp only [handleIds, List.map_append, List.map_cons, List.map_nil, Handle.create, List.append_assoc,
      List.Perm.refl]

theorem Sound.enqueue (hs : n.Sound P e pre) (data : Bytes) :
    ({ n with shared := { n.shared with pool := (n.shared.pool.enqueue data).2 } } : Network).Sound P e
      (pre + {(n.shared.pool.enqueue data).1.id}) ∧ Pool.Keeps n.shared.pool (n.shared.pool.enqueue data).2 := by
  obtain ⟨hb, hid⟩ := hs.books.enqueue data data.length
  refine ⟨⟨?_, hs.tidy, hs.ids⟩, Pool.Keeps.enqueue data data.length hs.books⟩
  rw [hid, ← add_assoc]
  exact hb

theorem Sound.enqueueOn (hs : n.Sound (fun _ => True) e (pre + {q.payload.id})) {id : Nat}
    (hid : id < n.nextHandle) (p : Priority) :
    (n.modifyHandle id (·.enqueue q p)).Sound (fun _ => True) e pre :=
  Sound.modifyHandle (by rw [hs.count_id hid, one_nsmul]; exact hs) fun h =>
    ⟨Handle.id_enqueue h q p, Handle.holds_enqueue h q p⟩

theorem shared_foldl_modifyHandle (f : Handle → Handle) :
    ∀ (dest : List Nat) (n : Network), (dest.foldl (fun n id => n.modifyHandle id f) n).shared = n.shared
  | [], _ => rfl
  | id :: dest, n => shared_foldl_modifyHandle f dest (n.modifyHandle id f)

theorem Sound.enqueueEach (q : Queued) (p : Priority) :
    ∀ (dest : List Nat) {n : Network}, (∀ id ∈ dest, id < n.nextHandle) →
      n.Sound (fun _ => True) e (pre + dest.length • {q.payload.id}) →
      (dest.foldl (fun n id => n.modifyHandle id (·.enqueue q p)) n).Sound (fun _ => True) e pre
  | [], _, _, hs => by simpa using hs
  | id :: dest, n, hids, hs => by
    rw [List.foldl_cons]
    have hs' : n.Sound (fun _ => True) e (pre + dest.length • {q.payload.id} + {q.payload.id}) := by
      rwa [add_assoc, ← succ_nsmul, ← List.length_cons (a := id)]
    exact enqueueEach q p dest (fun i hi => hids i (List.mem_cons_of_mem _ hi))
      (hs'.enqueueOn (hids id List.mem_cons_self) p)

end Network

namespace Peer

open Network

variable {P : Connection → Prop} {e : Nat} {pre : Multiset Nat} {n n' : Network}

theorem sendCommand_sound {installed : Bool} {cmd : Command} (pre : Multiset Nat) (hs : n.Sound P e (pre + cmd.holds))
    (h : sendCommand n installed cmd = .ok n') : n'.Sound P e pre ∧ n'.shared.pool = n.shared.pool := by
  unfold sendCommand at h
  obtain ⟨_, -, h⟩ := Net.bind_ok h
  split at h
  · cases h
  · split at h
    · cases h
    · cases h
      refine ⟨⟨?_, hs.tidy, hs.ids⟩, rfl⟩
      simpa [holds, add_assoc, add_comm cmd.holds] using hs.books

variable {r : Except Fault Unit} {data : Bytes} {m : Delivery} {channel : Nat} {p : Priority}

theorem sendMessage_sound (hs : n.Sound (fun _ => True) e 0) {id : Nat} (hid : id < n.nextHandle)
    (h : (sendMessage data id m channel p).run n = (r, n')) :
    n'.Sound (fun _ => True) e 0 ∧ Pool.Keeps n.shared.pool n'.shared.pool := by
  simp only [sendMessage, StateT.run_modifyGet] at h
  split at h
  · rename_i n₁ hr
    cases h
    obtain ⟨kind, -, hr⟩ := Net.bind_ok hr
    split at hr
    · obtain ⟨_, hf, -⟩ := Net.bind_ok hr
      cases hf
    · obtain ⟨_, -, hr⟩ := Net.bind_ok hr
      cases hr
      obtain ⟨hs₁, hk⟩ := hs.enqueue data
      exact ⟨hs₁.enqueueOn (q := { payload := _, kind }) hid p, hk⟩
  · cases h
    exact ⟨hs, Pool.Keeps.refl _⟩

def unqueued (n : Network) (ids : List Nat) (r : Except Fault Unit) : Nat :=
  if r.isOk && (ids.filter fun id => !(statusOf n id).isClosing).isEmpty then 1 else 0

theorem sendToMany_sound (hs : n.Sound (fun _ => True) e 0) {ids : List Nat}
    (hids : ∀ id ∈ ids, id < n.nextHandle) (h : (sendToMany data ids m channel p).run n = (r, n')) :
    n'.Sound (fun _ => True) (e + unqueued n ids r) 0 ∧ Pool.Keeps n.shared.pool n'.shared.pool := by
  simp only [sendToMany, StateT.run_modifyGet] at h
  split at h
  · rename_i n₁ hr
    cases h
    obtain ⟨kind, -, hr⟩ := Net.bind_ok hr
    obtain ⟨_, -, hr⟩ := Net.bind_ok hr
    split at hr
    · rename_i hnone
      cases hr
      have hu : unqueued n ids (.ok ()) = 1 := by simp [unqueued, hnone, Except.isOk, Except.toBool]
      obtain ⟨hb, hk⟩ := hs.books.recycleOutgoing { data, cap := data.length }
      exact ⟨hu ▸ ⟨hb, hs.tidy, hs.ids⟩, hk⟩
    · rename_i hsome
      cases hr
      have hu : unqueued n ids (.ok ()) = 0 := by simp [unqueued, hsome, Except.isOk, Except.toBool]
      rw [hu, add_zero]
      -- the fresh reference, one more per destination, then the fresh one dropped
      obtain ⟨hb₀, hid⟩ := hs.books.enqueue data data.length
      rw [← hid] at hb₀
      obtain ⟨hb₁, hk₁⟩ := hb₀.retainEach (ids.filter fun id => !(statusOf n id).isClosing)
        (Multiset.mem_add.2 (Or.inr (Multiset.mem_singleton_self _)))
      rw [add_right_comm] at hb₁
      obtain ⟨hb₂, hk₂⟩ := hb₁.release_added
      refine ⟨Network.Sound.enqueueEach { payload := (n.shared.pool.enqueue data).1, kind } p _
        (fun id hm => hids id (List.mem_of_mem_filter hm)) ⟨?_, hs.tidy, hs.ids⟩, ?_⟩
      · simpa [Network.holds] using hb₂
      · rw [Network.shared_foldl_modifyHandle]
        exact (Pool.Keeps.enqueue data data.length hs.books).trans (hk₁.trans hk₂)
  · cases h
    exact ⟨by simpa [unqueued, Except.isOk, Except.toBool] using hs, Pool.Keeps.refl _⟩

theorem sendToAll_sound (hs : n.Sound (fun _ => True) e 0) {except : Option Nat}
    (h : (sendToAll data except m channel p).run n = (r, n')) :
    n'.Sound (fun _ => True) (e + unqueued n (((connections n).filter fun h =>
      h.status = .connected && some h.id != except).map (·.id)) r) 0 ∧
      Pool.Keeps n.shared.pool n'.shared.pool := by
  refine sendToMany_sound hs (fun id hid => hs.lt_of_mem ?_) h
  obtain ⟨h₀, hh, rfl⟩ := List.mem_map.1 hid
  obtain ⟨c, hc, rfl⟩ := List.mem_map.1 (List.mem_of_mem_filter hh)
  exact List.mem_append_left _ (List.mem_map_of_mem hc)

theorem sendUnconnected_sound (hs : n.Sound (fun _ => True) e 0) {installed : Bool} {dest : Endpoint}
    (h : (sendUnconnected installed data dest).run n = (r, n')) :
    n'.Sound (fun _ => True) e 0 ∧ Pool.Keeps n.shared.pool n'.shared.pool := by
  unfold sendUnconnected at h
  rw [StateT.run_modifyGet] at h
  dsimp only at h
  split at h
  · cases h
    exact ⟨hs, Pool.Keeps.refl _⟩
  · obtain ⟨hs₁, hk⟩ := hs.enqueue data
    split at h
    · rename_i n₁ hc
      cases h
      obtain ⟨hs₂, hpool⟩ := sendCommand_sound 0 (by simpa [Command.holds] using hs₁) hc
      exact ⟨hs₂, hpool ▸ hk⟩
    · cases h
      -- the loop takes no commands: the payload goes back with its only reference
      have hb := hs₁.books
      rw [zero_add] at hb
      obtain ⟨hb, hk'⟩ := hb.release_added
      exact ⟨⟨by simpa [Network.holds] using hb, hs.tidy, hs.ids⟩, hk.trans hk'⟩

theorem connect_sound (hs : n.Sound (fun _ => True) e 0) {installed : Bool} {remote : Endpoint}
    {hail : Bytes} {id : Nat} (h : connect n installed remote hail = .ok (id, n')) :
    n'.Sound (fun _ => True) e 0 ∧ Pool.Keeps n.shared.pool n'.shared.pool := by
  unfold connect at h
  dsimp only at h
  split at h
  · obtain ⟨_, hf, -⟩ := Net.bind_ok h
    cases hf
  · obtain ⟨n₁, hc, h⟩ := Net.bind_ok h
    cases h
    obtain ⟨hs₁, hpool⟩ := sendCommand_sound 0 (by simpa [Command.holds] using hs.newHandle remote) hc
    exact ⟨hs₁, hpool ▸ Pool.Keeps.refl _⟩

theorem discover_sound (hs : n.Sound (fun _ => True) e 0) {installed : Bool} {dest : Endpoint}
    (h : (discover installed dest).run n = (r, n')) :
    n'.Sound (fun _ => True) e 0 ∧ Pool.Keeps n.shared.pool n'.shared.pool := by
  simp only [discover, StateT.run_modifyGet] at h
  split at h
  · rename_i n₁ hc
    cases h
    obtain ⟨hs₁, hpool⟩ := sendCommand_sound 0 (by simpa [Command.holds] using hs) hc
    exact ⟨hs₁, hpool ▸ Pool.Keeps.refl _⟩
  · cases h
    exact ⟨hs, Pool.Keeps.refl _⟩

theorem shutdown_sound (hs : n.Sound P e pre) (installed : Bool) (reason : String) :
    (shutdown installed reason n).Sound P e pre ∧ (shutdown installed reason n).shared.pool = n.shared.pool := by
  have hstop : ({ n with status := .shuttingDown } : Network).Sound P e pre := hs.of_eq rfl rfl rfl rfl rfl
  have hstopped : ({ n with status := .shuttingDown, commands := n.commands ++ [.shutdown reason] } : Network).Sound
      P e pre := ⟨by simpa [holds, Command.holds] using hs.books, hs.tidy, hs.ids⟩
  unfold shutdown
  dsimp only
  split
  case h_1 | h_2 =>
    split
    · exact ⟨hstopped, rfl⟩
    · exact ⟨hstop, rfl⟩
  case h_3 => exact ⟨hs.of_eq rfl rfl rfl rfl rfl, rfl⟩
  case h_4 | h_5 => exact ⟨hs, rfl⟩

end Peer

/-! ## Runs of a peer -/

namespace Network

/-- One thing that happens to a peer, returning `d` buffers that were never queued: a turn of the
loop, a request of the application (on handle numbers the peer gave out), an answer to a
handle's approval or disconnect, or a change to what the ledger does not read (the socket, the
status, the events read out). -/
inductive Move : Nat → Network → Network → Prop
  | quiet {n n' : Network} (h₁ : n'.shared.pool = n.shared.pool) (h₂ : n'.connections = n.connections)
      (h₃ : n'.handles = n.handles) (h₄ : n'.commands = n.commands) (h₅ : n'.nextHandle = n.nextHandle) :
      Move 0 n n'
  | step {n n' : Network} (now : Nat) (h : (Network.step now).run n = .ok ((), n')) : Move 0 n n'
  | commands {n n' : Network} (now : Nat) {reason : Option String}
      (h : (Network.processCommands now).run n = .ok (reason, n')) : Move 0 n n'
  | shutdown {n n' : Network} (reason : String) (now : Nat)
      (h : (Network.shutdown reason now).run n = .ok ((), n')) : Move 0 n n'
  | send {n n' : Network} {r : Except Fault Unit} (data : Bytes) (id : Nat) (m : Delivery) (channel : Nat)
      (p : Priority) (hid : id < n.nextHandle) (h : (Peer.sendMessage data id m channel p).run n = (r, n')) :
      Move 0 n n'
  | sendToMany {n n' : Network} {r : Except Fault Unit} (data : Bytes) (ids : List Nat) (m : Delivery)
      (channel : Nat) (p : Priority) (hids : ∀ id ∈ ids, id < n.nextHandle)
      (h : (Peer.sendToMany data ids m channel p).run n = (r, n')) : Move (Peer.unqueued n ids r) n n'
  | sendToAll {n n' : Network} {r : Except Fault Unit} (data : Bytes) (except : Option Nat) (m : Delivery)
      (channel : Nat) (p : Priority) (h : (Peer.sendToAll data except m channel p).run n = (r, n')) :
      Move (Peer.unqueued n (((Peer.connections n).filter fun h =>
        h.status = .connected && some h.id != except).map (·.id)) r) n n'
  | sendUnconnected {n n' : Network} {r : Except Fault Unit} (installed : Bool) (data : Bytes) (dest : Endpoint)
      (h : (Peer.sendUnconnected installed data dest).run n = (r, n')) : Move 0 n n'
  | connect {n n' : Network} {id : Nat} (installed : Bool) (remote : Endpoint) (hail : Bytes)
      (h : Peer.connect n installed remote hail = .ok (id, n')) : Move 0 n n'
  | discover {n n' : Network} {r : Except Fault Unit} (installed : Bool) (dest : Endpoint)
      (h : (Peer.discover installed dest).run n = (r, n')) : Move 0 n n'
  | stop {n : Network} (installed : Bool) (reason : String) : Move 0 n (Peer.shutdown installed reason n)
  | answer {n : Network} (id : Nat) {f : Handle → Handle} (hf : ∀ h, (f h).id = h.id ∧ (f h).outbound = h.outbound) :
      Move 0 n (n.modifyHandle id f)

inductive Run : Nat → Network → Network → Prop
  | refl (n : Network) : Run 0 n n
  | tail {d e : Nat} {n n₁ n₂ : Network} : Run e n n₁ → Move d n₁ n₂ → Run (e + d) n n₂

namespace Move

variable {d e : Nat} {n n' : Network}

/-- Every move keeps the ledger, with its unqueued buffers counted, and no payload returned
before comes back. -/
theorem sound (hm : Move d n n') (hs : n.Sound (fun _ => True) e 0) :
    n'.Sound (fun _ => True) (e + d) 0 ∧ Pool.Keeps n.shared.pool n'.shared.pool := by
  cases hm with
  | quiet h₁ h₂ h₃ h₄ h₅ => exact ⟨hs.of_eq h₁ h₂ h₃ h₄ h₅, h₁ ▸ Pool.Keeps.refl _⟩
  | step now h =>
    obtain ⟨hs', hk, -⟩ := Net.Conserves.step now n () n' hs h
    exact ⟨hs', hk⟩
  | commands now h =>
    obtain ⟨hs', hk, -⟩ := Net.Conserves.processCommands now n _ n' hs h
    exact ⟨hs', hk⟩
  | shutdown reason now h =>
    obtain ⟨hs', hk, -⟩ := Net.Conserves.shutdown reason now n () n' hs h
    exact ⟨hs', hk⟩
  | send data id m channel p hid h => exact Peer.sendMessage_sound hs hid h
  | sendToMany data ids m channel p hids h => exact Peer.sendToMany_sound hs hids h
  | sendToAll data except m channel p h => exact Peer.sendToAll_sound hs h
  | sendUnconnected installed data dest h => exact Peer.sendUnconnected_sound hs h
  | connect installed remote hail h => exact Peer.connect_sound hs h
  | discover installed dest h => exact Peer.discover_sound hs h
  | stop installed reason =>
    obtain ⟨hs', hpool⟩ := Peer.shutdown_sound hs installed reason
    exact ⟨hs', hpool ▸ Pool.Keeps.refl _⟩
  | answer id hf =>
    refine ⟨Network.Sound.modifyHandle (X := 0) (by simpa using hs) fun h => ⟨(hf h).1, ?_⟩, Pool.Keeps.refl _⟩
    simp [Handle.holds, (hf h).2]

end Move

theorem sound_create (P : Connection → Prop) (s : Settings) (socket : Socket)
    (r : Simulation.Draws) : (Network.create s socket r).Sound P 0 0 where
  books := Pool.Books.fresh s.maxPoolSize
  tidy _ h := absurd h List.not_mem_nil
  ids := List.Perm.refl _

theorem Run.sound {d e : Nat} {n n' : Network} (hr : Run d n n') (hs : n.Sound (fun _ => True) e 0) :
    n'.Sound (fun _ => True) (e + d) 0 ∧ Pool.Keeps n.shared.pool n'.shared.pool := by
  induction hr with
  | refl => exact ⟨hs, Pool.Keeps.refl _⟩
  | tail _ hm ih =>
    obtain ⟨hs₁, hk₁⟩ := ih hs
    obtain ⟨hs₂, hk₂⟩ := hm.sound hs₁
    exact ⟨by rwa [← add_assoc], hk₁.trans hk₂⟩

end Network

/-- Along every run of a peer from its creation, and on from any point of it: for every payload
the pool counts exactly the references held to it, in the handles' queues, the resend windows
and the commands in flight; every payload given out and no longer referenced has been returned
once, besides the buffers returned without being queued; and a payload once returned is never
counted again. -/
theorem payload_refs_counted_exactly {s : Settings} {socket : Socket} {r : Simulation.Draws}
    {e e' : Nat} {n n' : Network} (h₁ : Network.Run e (Network.create s socket r) n)
    (h₂ : Network.Run e' n n') :
    n'.shared.pool.Books n'.holds (e + e') ∧ Pool.Keeps n.shared.pool n'.shared.pool := by
  have hs₁ := (h₁.sound (Network.sound_create _ s socket r)).1
  obtain ⟨hs₂, hk⟩ := h₂.sound (by simpa using hs₁)
  exact ⟨by simpa using hs₂.books, hk⟩

theorem payload_refs_counted_after_sends :
    let n₀ : Network := Network.create { appId := "ledger" } { address := .localhost 6000 } (.const 0.5)
    let n₁ : Network := { (({ n₀ with status := .running } : Network).newHandle (.localhost 7000)).2 with
      commands := [.connect 0 []] }
    let n₂ := ((Peer.sendToMany [1, 2] [0, 0] .reliableOrdered 0 .normal).run n₁).2
    n₂.shared.pool.Books n₂.holds 0 ∧ Pool.Keeps n₀.shared.pool n₂.shared.pool := by
  intro n₀ n₁ n₂
  have hlen : Payload.connectLen "ledger" [] = 8 := by
    have h6 : (Utf8.encode "ledger").length = 6 := by decide
    simp [Payload.connectLen, Wire.prefixedLen, Wire.varintLen_eq, h6]
  have hfit : ¬Payload.connectLen "ledger" [] > ({ appId := "ledger" } : Settings).maxPayload := by
    rw [hlen]
    decide
  have hconnect : Peer.connect { n₀ with status := .running } true (.localhost 7000) [] = .ok (0, n₁) := by
    unfold Peer.connect
    simp only [n₀, Network.settings, Network.create, Shared.create, hfit, if_false]
    rfl
  have hstart : Network.Move 0 n₀ { n₀ with status := .running } := .quiet rfl rfl rfl rfl rfl
  have hrun : Network.Run 0 n₀ n₁ := ((Network.Run.refl n₀).tail hstart).tail (.connect true _ [] hconnect)
  exact payload_refs_counted_exactly (Network.Run.refl n₀)
    (hrun.tail (Network.Move.sendToMany (n := n₁) [1, 2] [0, 0] .reliableOrdered 0 .normal (by decide) rfl))

end ReliableUdp
