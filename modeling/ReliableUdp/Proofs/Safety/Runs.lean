import ReliableUdp.Proofs.Safety.Steps
import ReliableUdp.Proofs.Lifecycle.Runs

/-!
# Runs that crash only on time

With validated settings and what the public interface lets through, creation gives a fit
connection and every allowed operation keeps it fit (`Op.run_safe`), so no operation of a run
crashes but for a time out of range.
-/

namespace ReliableUdp

open Crash (OnlyTime)
open Step

variable {s : Settings} {c : Connection}

/-! ## What the interface lets through -/

def HandleRequest.Allowed (s : Settings) : HandleRequest → Prop
  | .send _ _ data _ => data.length ≤ s.maxMessageSize
  | _ => True

def Op.Allowed (s : Settings) : Op → Prop
  | .receive h _ _ => ∃ bs rest, Header.decode bs = .ok (h, rest)
  | .request q => q.Allowed s
  | _ => True

def Origin.Allowed (s : Settings) : Origin → Prop
  | .outgoing _ _ n hail _ => n ≤ s.maxPayload ∧ Payload.connectLen s.appId hail ≤ s.maxPayload
  | .incoming _ _ n _ _ => n ≤ s.maxPayload

/-! ## Requests -/

theorem Settings.Sized.prefixedLen_zero_le {s : Settings} (hs : s.Sized) : Wire.prefixedLen 0 ≤ s.maxPayload := by
  rw [Wire.prefixedLen_zero]
  exact Nat.le_trans (by decide) hs.maxPayload_ge

theorem Handle.le_of_check {h h' x : Handle} {n : Nat}
    (hc : (h.check n >>= fun _ => pure x : Except Fault Handle) = .ok h') : n ≤ h.maxPayload := by
  unfold Handle.check at hc
  split at hc
  · cases hc
  · omega

theorem Queued.sendable_of_user? {m : Delivery} {ch : Nat} {kind : Kind} (hk : Kind.user? m ch = some kind)
    (payload : Payload) : Queued.Sendable { payload, kind } := by
  unfold Kind.user? at hk
  split at hk
  · cases hk
    exact ⟨⟨m, ch, rfl, by assumption⟩, fun _ ht => by cases ht⟩
  · cases hk

namespace Connection

theorem fit_of_checked {x : Except Fault Handle} (hc : c.Fit s)
    (hx : ∀ h', x = .ok h' → h'.outbound = c.handle.outbound ∧ h'.maxPayload = c.handle.maxPayload ∧
      ∀ d ∈ h'.decision, d.Fits s.maxPayload) :
    Fit s { c with handle := x.toOption.getD c.handle } := by
  cases x with
  | error => exact { hc with }
  | ok h' =>
    obtain ⟨hq, hm, hd⟩ := hx h' rfl
    exact { hc with
      queued := by rw [Except.toOption, Option.getD_some, hq]; exact hc.queued
      limit := by rw [Except.toOption, Option.getD_some, hm]; exact hc.limit
      decision := hd }

end Connection

open Connection in
theorem HandleRequest.run_safe (hs : s.Sized) (hc : c.Fit s) {q : HandleRequest} (hq : q.Allowed s) :
    Safe s (q.run c) (·.Fit s) := by
  cases q with
  | send m ch data p =>
    simp only [HandleRequest.run]
    split
    · rename_i kind hk
      refine .bind (.withPool (f := fun pool => pool.enqueue data)) fun payload hp' => .pure ?_
      obtain ⟨pool, hp⟩ := hp'
      -- the new message is sendable and waits for the queue whole
      have hnew : Queued.Sendable { payload, kind } ∧ Queued.Pending s { payload, kind } :=
        ⟨Queued.sendable_of_user? hk payload, .inr ⟨rfl, by rw [← hp]; exact hq⟩⟩
      exact { hc with
        queued := fun q' hq' => (Handle.mem_outbound_enqueue hq').elim (hc.queued q') fun e => e ▸ hnew
        limit := by cases p <;> exact hc.limit
        decision := by cases p <;> exact hc.decision }
    · exact .pure hc
  | approve =>
    exact .pure { hc with decision := fun d h => by cases h; exact hs.prefixedLen_zero_le }
  | approveWith hail =>
    refine .pure (fit_of_checked hc fun h' hx => ?_)
    unfold Handle.approveWith at hx
    have hn := Handle.le_of_check hx
    rw [Handle.eq_of_check hx]
    exact ⟨rfl, rfl, fun d hd => by cases hd; exact Nat.le_trans hn hc.limit⟩
  | deny r =>
    refine .pure (fit_of_checked hc fun h' hx => ?_)
    unfold Handle.deny at hx
    have hn := Handle.le_of_check hx
    rw [Handle.eq_of_check hx]
    exact ⟨rfl, rfl, fun d hd => by cases hd; exact Nat.le_trans hn hc.limit⟩
  | disconnect r =>
    refine .pure (fit_of_checked hc fun h' hx => ?_)
    unfold Handle.requestDisconnect at hx
    rw [Handle.eq_of_check hx]
    exact ⟨rfl, rfl, hc.decision⟩

/-! ## Operations -/

open Connection in
theorem Op.run_safe (hs : s.Sized) (hc : c.Fit s) {o : Op} (ho : o.Allowed s) :
    Safe s (o.run c) (·.Fit s) := by
  cases o with
  | heartbeat now => exact heartbeat_safe hs hc now
  | receive h p now =>
    obtain ⟨bs, rest, hd⟩ := ho
    exact onMessage_safe hs hc (Header.decode_gives bs h rest hd) p now
  | disconnect r now => exact disconnect_safe hs hc r now
  | finishDisconnect r now => exact finishDisconnect_safe hs hc r now
  | close r => exact close_safe hc r
  | forciblyClosed => exact close_safe hc _
  | request q => exact HandleRequest.run_safe hs hc ho
  | take => exact .pure { hc with }

/-! ## Creation -/

theorem ReceiveWindow.holds_fresh {P : Inbound → Prop} : ({} : ReceiveWindow).Holds P := by
  intro l hl x hx
  obtain ⟨-, rfl⟩ := Array.mem_replicate.1 hl
  cases hx

theorem Connection.create_safe {h : Handle} {i : Bool} {hs : Handshake} (now : Nat) (hq : h.outbound = [])
    (hl : h.maxPayload ≤ s.maxPayload) (hd : h.decision = none)
    (hhail : Wire.prefixedLen hs.localHail.length ≤ s.maxPayload)
    (hi : i = true → Payload.connectLen s.appId hs.localHail ≤ s.maxPayload ∧ hs.awaitingApproval = false) :
    Safe s (Connection.create h i hs now) (·.Fit s) := by
  unfold Connection.create
  refine .bind .settings fun st hst => ?_
  subst st
  refine setStatus_safe ?_ _ _
  exact {
    mtu := rfl
    queued := by rw [hq]; exact fun _ h => by cases h
    stored := SendWindow.holds_fresh _
    group := show 0 < 65536 by decide
    limit := hl
    decision := by rw [hd]; exact fun _ h => by cases h
    hail := hhail
    initiator := hi
    withheld := ReceiveWindow.holds_fresh }

theorem Origin.create_safe (hs : s.Sized) {o : Origin} (ho : o.Allowed s) : Safe s o.create (·.Fit s) := by
  cases o with
  | outgoing id r n hail now =>
    obtain ⟨hn, hconnect⟩ := ho
    refine Connection.create_safe now rfl hn rfl ?_ fun _ => ⟨hconnect, rfl⟩
    exact Nat.le_trans (show Wire.prefixedLen hail.length ≤ Payload.connectLen s.appId hail by
      unfold Payload.connectLen; omega) hconnect
  | incoming id r n hail now =>
    unfold Origin.create Connection.incoming
    refine .bind .settings fun st hst => ?_
    subst st
    have hcreate : Safe s (Connection.create { Handle.create id r n with remoteHail := hail } false
        { started := now, awaitingApproval := s.connectionApproval } now) (·.Fit s) :=
      Connection.create_safe now rfl ho rfl hs.prefixedLen_zero_le fun h => by cases h
    dsimp only
    split
    · exact .bind (.emit _) fun _ _ => hcreate
    · exact hcreate

/-! ## Runs -/

theorem Datagram.Writer.Writes.fits {w w' : Datagram.Writer} {ms : List (Header × Bytes)}
    (h : Datagram.Writer.Writes w ms w') : w'.mtu = w.mtu ∧ ∀ m ∈ ms, m.1.encodedLen + m.2.length ≤ w.mtu := by
  induction h with
  | nil => exact ⟨rfl, fun _ h => by cases h⟩
  | @cons w w₁ _ m _ hw _ ih =>
    have hmtu := Datagram.Writer.mtu_write hw
    have hle : m.1.encodedLen + m.2.length ≤ w.mtu := by
      unfold Datagram.Writer.write at hw
      dsimp only at hw
      split at hw
      · cases hw
      · omega
    refine ⟨ih.1.trans hmtu, fun m' hm' => ?_⟩
    rcases List.mem_cons.1 hm' with rfl | hm'
    · exact hle
    · exact hmtu ▸ ih.2 m' hm'

theorem Op.Sent.fits {o : Op} {w w' : Datagram.Writer} {ms : List (Header × Bytes)} (h : o.Sent w ms w') :
    ∀ m ∈ ms, m.1.encodedLen + m.2.length ≤ w.mtu := by
  cases o with
  | take =>
    have hms : ms = [] := h
    rw [hms]
    exact fun _ h => by cases h
  | _ => exact h.1.fits.2

/-- What a run keeps over the settings `s`: the settings themselves, a fit connection, and a
wire of messages that each fit the MTU. -/
structure Snap.Fit (s : Settings) (x : Snap) : Prop where
  settings : x.shared.settings = s
  conn : x.conn.Fit s
  wire : ∀ m ∈ x.wire, m.1.encodedLen + m.2.length ≤ s.mtu

theorem Op.Turn.fit (hs : s.Sized) {o : Op} {x x' : Snap} (ho : o.Allowed s) (ht : o.Turn x x')
    (hx : x.Fit s) : x'.Fit s := by
  obtain ⟨hrun, ms, hwire, hsent⟩ := ht
  obtain ⟨hset, hfit⟩ := (Op.run_safe hs hx.conn ho x.shared hx.settings).2 _ _ hrun
  refine ⟨hset, hfit, fun m hm => ?_⟩
  rw [hwire] at hm
  rcases List.mem_append.1 hm with hm | hm
  · exact hx.wire m hm
  · exact hx.conn.mtu ▸ hsent.fits m hm

theorem Origin.Creates.fit {sh : Shared} (hs : sh.settings.Sized) {o : Origin} {x : Snap}
    (ho : o.Allowed sh.settings) (hc : o.Creates sh x) : x.Fit sh.settings := by
  obtain ⟨hset, hfit⟩ := (Origin.create_safe hs ho sh rfl).2 _ _ hc.1
  exact ⟨hset, hfit, by rw [hc.2]; exact fun _ h => by cases h⟩

theorem Run.fit {o : Origin} {sh : Shared} {ts : List Turn} {x : Snap} (hs : sh.settings.Sized)
    (ho : o.Allowed sh.settings) (hts : ∀ t ∈ ts, t.op.Allowed sh.settings) (hr : Run o sh ts x) :
    x.Fit sh.settings := by
  obtain ⟨x₀, hc, hch⟩ := hr
  exact (hch.holds_while (P := fun t => t.op.Allowed sh.settings)
    (fun hP ht _ hi => ht.fit hs hP hi) hts (Origin.create_spec hc.1).2.1 (hc.fit hs ho)).2

/-- With settings that pass validation (they are sized, `Settings.sized_of_validate`), a
connection created and run with what the public interface lets through crashes only for a time
out of range: at its creation, and at every operation after any run. Every message it writes
fits the MTU, the longest header fits the MTU, and acknowledgements are sent in chunks of at
least one. -/
theorem connection_crashes_only_on_time {o : Origin} {sh : Shared} (hs : sh.settings.Sized)
    (ho : o.Allowed sh.settings) :
    OnlyTime (o.create.run sh) ∧
      (∀ ts x, Run o sh ts x → (∀ t ∈ ts, t.op.Allowed sh.settings) →
        (∀ op : Op, op.Allowed sh.settings → OnlyTime ((op.run x.conn).run x.shared)) ∧
        ∀ m ∈ x.wire, m.1.encodedLen + m.2.length ≤ sh.settings.mtu) ∧
      Header.maxLen ≤ sh.settings.mtu ∧ 0 < (sh.settings.mtu - Header.maxLen) / Payload.ackEntryLen := by
  refine ⟨(Origin.create_safe hs ho sh rfl).1, fun ts x hr hts => ?_, hs.maxLen_le, hs.ackChunk_pos⟩
  have hx := hr.fit hs ho hts
  exact ⟨fun op hop => (Op.run_safe hs hx.conn hop x.shared hx.settings).1, hx.wire⟩

def demoShared : Shared := Shared.create { appId := "demo" }

def demoAccepted : Origin := .incoming 0 (.v4 [127, 0, 0, 1] 9000) 1396 [] 0

theorem connection_crashes_only_on_time_demo :
    demoShared.settings.Sized ∧ demoAccepted.Allowed demoShared.settings ∧
      OnlyTime (demoAccepted.create.run demoShared) ∧
      (∀ ts x, Run demoAccepted demoShared ts x → (∀ t ∈ ts, t.op.Allowed demoShared.settings) →
        (∀ op : Op, op.Allowed demoShared.settings → OnlyTime ((op.run x.conn).run x.shared)) ∧
        ∀ m ∈ x.wire, m.1.encodedLen + m.2.length ≤ demoShared.settings.mtu) ∧
      Header.maxLen ≤ demoShared.settings.mtu ∧
      0 < (demoShared.settings.mtu - Header.maxLen) / Payload.ackEntryLen := by
  have hs : demoShared.settings.Sized := ⟨by decide, by decide, by decide, by decide, nofun⟩
  have ho : demoAccepted.Allowed demoShared.settings := show 1396 ≤ demoShared.settings.maxPayload by decide
  exact ⟨hs, ho, connection_crashes_only_on_time hs ho⟩

end ReliableUdp
