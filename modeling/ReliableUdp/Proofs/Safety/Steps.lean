import ReliableUdp.Proofs.Truncation

/-!
# Connections break no promise

`Step.Safe s x P`: `x` crashes only for a time out of range and a successful run gives `P`.
Each function of a connection is safe on a `Connection.Fit` connection and leaves it fit.
-/

namespace ReliableUdp

open Crash (OnlyTime)

namespace Step

/-- Run with the settings `s`, `x` crashes only for a time out of range; a successful run keeps
the settings and gives a result satisfying `P`. -/
def Safe {α : Type} (s : Settings) (x : Step α) (P : α → Prop) : Prop :=
  ∀ sh, sh.settings = s →
    OnlyTime (x.run sh) ∧ ∀ a sh', x.run sh = .ok (a, sh') → sh'.settings = s ∧ P a

namespace Safe

variable {s : Settings} {α β γ : Type} {x : Step α} {P Q : α → Prop}

theorem pure {a : α} (h : P a) : Safe s (Pure.pure a : Step α) P := by
  intro sh hsh
  refine ⟨.ok _, fun b sh' hr => ?_⟩
  cases hr
  exact ⟨hsh, h⟩

theorem bind {f : α → Step β} {R : β → Prop} (hx : Safe s x Q) (hf : ∀ a, Q a → Safe s (f a) R) :
    Safe s (x >>= f) R := by
  intro sh hsh
  obtain ⟨hxe, hxo⟩ := hx sh hsh
  rw [StateT.run_bind]
  cases hr : x.run sh with
  | error e =>
    refine ⟨fun e' he => ?_, fun b sh' h => by cases h⟩
    cases he
    exact hxe _ hr
  | ok p =>
    obtain ⟨hsh₁, hq⟩ := hxo p.1 p.2 hr
    exact hf p.1 hq p.2 hsh₁

theorem mono (hx : Safe s x P) (h : ∀ a, P a → Q a) : Safe s x Q := fun sh hsh =>
  ⟨(hx sh hsh).1, fun a sh' hr => ((hx sh hsh).2 a sh' hr).imp_right (h a)⟩

theorem crash {e : Except Crash α} (he : OnlyTime e) : Safe s (Step.crash e) fun a => e = .ok a := by
  intro sh hsh
  cases e with
  | error err =>
    refine ⟨fun e' h => ?_, fun _ _ h => by cases h⟩
    cases h
    exact he _ rfl
  | ok a =>
    refine ⟨.ok _, fun b sh' h => ?_⟩
    cases h
    exact ⟨hsh, rfl⟩

theorem crash_ok {e : Except Crash α} {a : α} (he : e = .ok a) : Safe s (Step.crash e) (· = a) :=
  (crash (he ▸ .ok a)).mono fun _ h => by rw [he] at h; exact (Except.ok.inj h).symm

theorem write {w : Datagram.Writer} {hd : Header} {p : Bytes} (h : hd.encodedLen + p.length ≤ w.mtu) :
    Safe s (Step.crash (w.write hd p)) (·.mtu = w.mtu) := by
  obtain ⟨w', hw⟩ := Datagram.Writer.write_ok h
  exact (crash_ok hw).mono fun _ h' => h' ▸ Datagram.Writer.mtu_write hw

theorem settings : Safe s Step.settings (· = s) := by
  intro sh hsh
  exact ⟨.ok _, fun a sh' h => by cases h; exact ⟨hsh, hsh⟩⟩

theorem get : Safe s (MonadState.get : Step Shared) (·.settings = s) := by
  intro sh hsh
  exact ⟨.ok _, fun a sh' h => by cases h; exact ⟨hsh, hsh⟩⟩

theorem set {sh' : Shared} (h : sh'.settings = s) : Safe s (MonadStateOf.set sh' : Step PUnit) fun _ => True := by
  intro sh _
  exact ⟨.ok _, fun a sh'' hr => by cases hr; exact ⟨h, trivial⟩⟩

theorem modify {f : Shared → Shared} (hf : ∀ sh, (f sh).settings = sh.settings) :
    Safe s (MonadState.modifyGet fun sh => (PUnit.unit, f sh) : Step PUnit) fun _ => True := by
  intro sh hsh
  exact ⟨.ok _, fun a sh' h => by cases h; exact ⟨(hf sh).trans hsh, trivial⟩⟩

theorem emit (g : Released → Released) : Safe s (Step.emit g) fun _ => True := modify fun _ => rfl

theorem count (g : Stats → Stats) : Safe s (Step.count g) fun _ => True := modify fun _ => rfl

theorem release (ms : List Queued) : Safe s (Step.release ms) fun _ => True := modify fun _ => rfl

theorem withPool {f : Pool → α × Pool} : Safe s (Step.withPool f) fun a => ∃ pool, (f pool).1 = a :=
  .bind get fun sh hsh =>
    .bind (set (show ({ sh with pool := (f sh.pool).2 } : Shared).settings = s from hsh)) fun _ _ =>
      .pure ⟨sh.pool, rfl⟩

theorem markSent (p : Payload) : Safe s (Step.markSent p) fun _ => True :=
  .bind withPool fun first _ => by
    split
    · exact count _
    · exact .pure trivial

theorem foldlM {f : β → γ → Step β} {R : β → Prop} :
    ∀ (l : List γ) (b : β), (∀ b a, a ∈ l → R b → Safe s (f b a) R) → R b → Safe s (l.foldlM f b) R
  | [], _, _, hb => pure hb
  | a :: l, b, hf, hb => by
    rw [List.foldlM_cons]
    exact bind (hf b a List.mem_cons_self hb) fun b' hb' =>
      foldlM l b' (fun b₁ a₁ ha₁ => hf b₁ a₁ (List.mem_cons_of_mem _ ha₁)) hb'

theorem forIn {f : γ → PUnit → Step (ForInStep PUnit)} (hf : ∀ a u, Safe s (f a u) fun _ => True) :
    ∀ (l : List γ), Safe s (ForIn.forIn l PUnit.unit f) fun _ => True
  | [] => pure trivial
  | a :: l => by
    rw [List.forIn_cons]
    refine bind (hf a _) fun r _ => ?_
    cases r with
    | done => exact pure trivial
    | yield => exact forIn hf l

end Safe
end Step

/-! ## What a connection keeps -/

def Queued.Pending (s : Settings) (q : Queued) : Prop :=
  q.Writable s.mtu ∨ (q.fragment = none ∧ q.data.length ≤ s.maxMessageSize)

def Decision.Fits (n : Nat) : Decision → Prop
  | .approve hail => Wire.prefixedLen hail.length ≤ n
  | .deny reason => Wire.prefixedLen (Utf8.encode reason).length ≤ n

def Inbound.Tagged (m : Inbound) : Prop := ∀ t ∈ m.fragment, t.index < t.total

/-- What a connection keeps true under the settings `s` so that nothing it does breaks a
promise. -/
structure Connection.Fit (s : Settings) (c : Connection) : Prop where
  mtu : c.writer.mtu = s.mtu
  queued : ∀ q ∈ c.handle.outbound, q.Sendable ∧ q.Pending s
  stored : c.sendWindow.Holds fun q => q.Sendable ∧ q.kind.isReliable = true ∧ q.Writable s.mtu
  group : c.nextGroup < 65536
  limit : c.handle.maxPayload ≤ s.maxPayload
  decision : ∀ d ∈ c.handle.decision, d.Fits s.maxPayload
  hail : Wire.prefixedLen c.handshake.localHail.length ≤ s.maxPayload
  initiator : c.initiator = true →
    Payload.connectLen s.appId c.handshake.localHail ≤ s.maxPayload ∧ c.handshake.awaitingApproval = false
  withheld : c.receiveWindow.Holds Inbound.Tagged

namespace Connection

open Step

variable {s : Settings} {c : Connection} {now : Nat}

theorem Fit.sound (hc : c.Fit s) : c.Sound :=
  ⟨fun q hq => (hc.queued q hq).1, fun l hl x hx => ⟨(hc.stored l hl x hx).1, (hc.stored l hl x hx).2.1⟩,
    hc.group⟩

theorem Fit.payload_le (hs : s.Sized) (hc : c.Fit s) {n : Nat} (hn : n ≤ s.maxPayload) :
    Header.maxLen + n ≤ c.writer.mtu ∧ n ≤ Header.maxPayload := by
  have hle := hs.maxLen_le
  have hmax := hs.mtu_le
  unfold Settings.maxPayload at hn
  rw [hc.mtu]
  omega

theorem setStatus_safe (hc : c.Fit s) (st : Status) (r : String) :
    Safe s (c.setStatus st r) (·.Fit s) := by
  unfold setStatus
  split
  · exact .pure hc
  · exact .bind (.emit _) fun _ _ => .pure { hc with }

theorem writeControl_safe (hs : s.Sized) (hc : c.Fit s) (k : Control) {p : Bytes}
    (hp : p.length ≤ s.maxPayload) (now : Nat) : Safe s (c.writeControl k p now) (·.Fit s) := by
  obtain ⟨hfit, hlen⟩ := hc.payload_le hs hp
  unfold writeControl
  refine .bind (.crash_ok (Header.ofControl_ok k hlen)) fun h hh => ?_
  have hhead := Header.ofControl_encodedLen (hh ▸ Header.ofControl_ok k hlen)
  refine .bind (.write (by unfold Header.maxLen at hfit; omega)) fun w hw => ?_
  exact .pure { hc with mtu := hw.trans hc.mtu }

theorem writeUser_safe (hs : s.Sized) (hc : c.Fit s) {m : Queued} (hm : m.Writable s.mtu) (seq : Option Seq) :
    Safe s (c.writeUser m seq) (·.Fit s) := by
  have hmax := hs.mtu_le
  have hlen : m.data.length ≤ Header.maxPayload := by
    unfold Queued.Writable at hm
    omega
  unfold writeUser
  refine .bind (.crash_ok (Header.ofUser_ok m.kind seq m.tag hlen)) fun h hh => ?_
  have hhead := Header.ofUser_encodedLen (hh ▸ Header.ofUser_ok m.kind seq m.tag hlen)
  refine .bind (.write ?_) fun w hw => .pure { hc with mtu := hw.trans hc.mtu }
  unfold Queued.Writable Queued.headroom Header.maxLen at hm
  rw [hc.mtu]
  cases ht : m.tag.isSome <;> simp only [ht, if_true, Bool.false_eq_true, if_false] at hm hhead <;> omega

theorem close_safe (hc : c.Fit s) (r : String) : Safe s (c.close r) (·.Fit s) := by
  unfold close
  split
  · exact .pure hc
  · refine .bind (.release _) fun _ _ => .bind (.release _) fun _ _ => setStatus_safe ?_ _ _
    exact { hc with
      queued := fun q hq => by simp [Handle.outbound] at hq
      stored := SendWindow.holds_clear _
      withheld := ReceiveWindow.holds_clear _ }

theorem sendUser_safe (hs : s.Sized) (hc : c.Fit s) {m : Queued} (hm : m.Sendable)
    (hw : m.Writable s.mtu) (now : Nat) : Safe s (c.sendUser m now) (·.Fit s) := by
  have hraw : m.kind.toRaw < Kind.count := hm.toRaw_lt
  obtain ⟨r, hr⟩ := SendWindow.assign_ok (w := c.sendWindow) hraw
  unfold sendUser
  refine .bind (.crash_ok hr) fun ⟨seq, sw⟩ hassign => ?_
  -- numbering changes the next numbers only, not what is kept
  have hc₁ : ({ c with sendWindow := sw } : Connection).Fit s :=
    { hc with stored := hc.stored.assign (by rw [hr, hassign]) }
  refine .bind (writeUser_safe hs hc₁ hw seq) fun c₁ h₁ => .bind (.markSent _) fun _ _ => ?_
  dsimp only
  split
  · split
    · rename_i hrel
      refine .bind .settings fun st hst => .bind (.crash (Latency.avgRtt_onlyTime _)) fun rtt _ => ?_
      subst st
      refine .bind (.crash (SendWindow.store_onlyTime hraw hrel hs.delays hs.factors _)) fun sw' hsw => ?_
      obtain ⟨t, rfl⟩ := SendWindow.store_eq_keep hsw
      exact .pure { h₁ with stored := h₁.stored.keep ⟨hm, hrel, hw⟩ _ _ }
    · exact .bind (.release _) fun _ _ => .pure { h₁ with }
  · exact .bind (.release _) fun _ _ => .pure { h₁ with }

theorem resendDue_safe (hs : s.Sized) (hc : c.Fit s) (now : Nat) : Safe s (c.resendDue now) (·.Fit s) := by
  unfold resendDue
  refine .bind .settings fun st hst => ?_
  subst st
  refine .bind (.crash (Latency.avgRtt_onlyTime _)) fun rtt _ => ?_
  refine .bind (.crash (SendWindow.resendDue_onlyTime hs.delays hs.factors)) fun ⟨pass, sw⟩ hsw => ?_
  have hkept := hc.stored.resendDue hsw
  refine .bind (.foldlM _ _ (fun c₁ x hx h₁ => writeUser_safe hs h₁ (hkept.2 x hx).2.2 _)
    { hc with stored := hkept.1 }) fun c₁ h₁ => ?_
  extract_lets n d finish report
  -- counting, warning and releasing leave the connection as the resends wrote it
  have hfinish : ∀ u, Safe s (finish u) (·.Fit s) := fun _ =>
    .bind (.release _) fun _ _ => .pure (by split; exacts [{ h₁ with }, h₁])
  have hreport : ∀ u, Safe s (report u) (·.Fit s) := by
    intro u
    simp only [report]
    split
    · exact .bind (.count _) fun _ _ => .bind (.emit _) fun u _ => hfinish u
    · exact hfinish ()
  split
  · exact .bind (.count _) fun u _ => hreport u
  · exact hreport ()

def DrainFits (s : Settings) (acc : Drain) : Prop :=
  acc.2.2.Fit s ∧ ∀ q ∈ acc.2.1, q.Sendable ∧ q.Pending s

theorem DrainFits.defer {acc : Drain} (ha : DrainFits s acc) {m : Queued} (hm : m.Sendable ∧ m.Pending s)
    (b : Bool) : DrainFits s (b, acc.2.1 ++ [m], acc.2.2) := by
  refine ⟨ha.1, fun q hq => ?_⟩
  rcases List.mem_append.1 hq with hq | hq
  · exact ha.2 q hq
  · rw [List.mem_singleton.1 hq]
    exact hm

theorem offer_safe (hs : s.Sized) {acc : Drain} (ha : DrainFits s acc) {m : Queued} (hm : m.Sendable)
    (hw : m.Writable s.mtu) (now : Nat) : Safe s (offer now acc m) (DrainFits s) := by
  obtain ⟨wrote, deferred, c⟩ := acc
  obtain ⟨full, hfull⟩ := SendWindow.isFull_ok (w := c.sendWindow) hm.toRaw_lt
  unfold offer
  refine .bind .settings fun _ _ => ?_
  split
  · exact .pure (ha.defer ⟨hm, .inl hw⟩ wrote)
  · refine .bind (.crash_ok hfull) fun b _ => ?_
    split
    · exact .pure (ha.defer ⟨hm, .inl hw⟩ wrote)
    · exact .bind (sendUser_safe hs ha.1 hm hw now) fun c' hc' => .pure ⟨hc', ha.2⟩

theorem drainOne_safe (hs : s.Sized) {maxWhole : Nat} (hmax : maxWhole + (Header.maxLen - 6) = s.mtu)
    {acc : Drain} (ha : DrainFits s acc) {m : Queued} (hm : m.Sendable ∧ m.Pending s) (now : Nat) :
    Safe s (drainOne now maxWhole acc m) (DrainFits s) := by
  obtain ⟨wrote, deferred, c⟩ := acc
  unfold drainOne
  refine .bind .settings fun st hst => ?_
  subst st
  dsimp only
  split
  · exact .pure (ha.defer hm wrote)
  split
  · -- too large for one datagram: whole, so within the largest message
    rename_i hbig
    simp only [Bool.and_eq_true, Option.isNone_iff_eq_none, decide_eq_true_eq] at hbig
    have hwhole : m.fragment = none ∧ m.data.length ≤ s.maxMessageSize := by
      rcases hm.2 with hw | hw
      · unfold Queued.Writable Queued.headroom at hw
        simp only [Queued.tag, hbig.1, Option.map_none, Option.isSome_none, Bool.false_eq_true,
          if_false] at hw
        omega
      · exact hw
    have hdata : m.data = m.payload.data := by unfold Queued.data; rw [hwhole.1]
    have hc₀ : 0 < s.maxPayload := Nat.lt_of_lt_of_le (by decide) hs.maxPayload_ge
    refine .bind .get fun sh hsh => ?_
    obtain ⟨frags, pool, hsplit, -, -, -, -, hsize, -⟩ :=
      Fragments.split_spec sh.pool m c.nextGroup (hdata ▸ (by omega)) hc₀
        (hs.count_le (hdata ▸ hwhole.2))
    have hsend := Fragments.split_sendable hm.1 ha.1.group hsplit
    refine .bind (.crash_ok hsplit) fun r hfp => ?_
    obtain ⟨frags', pool'⟩ := r
    obtain ⟨rfl, rfl⟩ := Prod.mk.inj hfp
    refine .bind (.set (show ({ sh with pool := _ } : Shared).settings = s from hsh)) fun _ _ => ?_
    refine .foldlM _ _ (fun acc f hf hacc => offer_safe hs hacc (hsend f hf) ?_ now) ⟨{ ha.1 with
      group := Nat.mod_lt _ (by decide) }, ha.2⟩
    -- a fragment carries at most a library payload
    have hf' := hsize f hf
    have hroom := f.headroom_le
    have hle := hs.maxLen_le
    unfold Queued.Writable
    unfold Settings.maxPayload at hf'
    omega
  · -- small enough, or a fragment already: writable
    rename_i hsmall
    refine offer_safe hs ha hm.1 ?_ now
    rcases hm.2 with hw | ⟨hnone, -⟩
    · exact hw
    · simp only [hnone, Option.isNone_none, Bool.true_and, decide_eq_true_eq, Nat.not_lt] at hsmall
      unfold Queued.Writable Queued.headroom
      simp only [Queued.tag, hnone, Option.map_none, Option.isSome_none, Bool.false_eq_true, if_false]
      omega

theorem drainOutbound_safe (hs : s.Sized) (hc : c.Fit s) (now : Nat) :
    Safe s (c.drainOutbound now) (·.2.Fit s) := by
  unfold drainOutbound
  refine .bind .settings fun st hst => ?_
  subst st
  dsimp only
  have hmax : c.writer.maxPayload (Header.maxLen - 6) + (Header.maxLen - 6) = s.mtu := by
    have := hs.mtu_ge
    have := hs.mtu_le
    unfold Datagram.Writer.maxPayload Header.maxLen
    rw [hc.mtu]
    omega
  -- each queue is drained in turn; what it puts back is kept for the queue it came from
  let Kept : Bool × List (List Queued) × Connection → Prop := fun acc =>
    acc.2.2.Fit s ∧ ∀ l ∈ acc.2.1, ∀ q ∈ l, q.Sendable ∧ q.Pending s
  have hqueues : ∀ q ∈ [c.handle.high, c.handle.normal, c.handle.low], ∀ m ∈ q, m.Sendable ∧ m.Pending s := by
    intro q hq m hm
    refine hc.queued m ?_
    simp only [List.mem_cons, List.not_mem_nil, or_false] at hq
    rcases hq with rfl | rfl | rfl <;> simp [Handle.outbound, hm]
  refine .bind (Q := Kept) (.foldlM _ _ (fun acc q hq hacc => ?_) ⟨{ hc with
    queued := fun q hq => by simp [Handle.outbound] at hq }, fun _ hl => by cases hl⟩) fun r hr => ?_
  · have hstart : DrainFits s (acc.1, [], acc.2.2) := ⟨hacc.1, fun _ hm => by cases hm⟩
    refine .bind (.foldlM _ _ (fun d m hm hd => drainOne_safe hs hmax hd (hqueues q hq m hm) now) hstart)
      fun d hd => .pure ⟨hd.1, fun l hl => ?_⟩
    rcases List.mem_append.1 hl with hl | hl
    · exact hacc.2 l hl
    · rw [List.mem_singleton.1 hl]
      exact hd.2
  · obtain ⟨wrote, kept, c'⟩ := r
    refine .pure { hr.1 with queued := fun q hq => ?_ }
    have hget : ∀ i, ∀ q ∈ kept.getD i [], q.Sendable ∧ q.Pending s := by
      intro i q hq
      rw [List.getD_eq_getElem?_getD] at hq
      cases hi : kept[i]? with
      | none => simp [hi] at hq
      | some l =>
        rw [hi, Option.getD_some] at hq
        exact hr.2 l (List.mem_of_getElem? hi) q hq
    simp only [Handle.outbound, List.mem_append] at hq
    rcases hq with (hq | hq) | hq
    · exact hget 0 q hq
    · exact hget 1 q hq
    · exact hget 2 q hq

theorem length_le_of_mem_chunks {α : Type} {n : Nat} {part : List α} :
    ∀ (fuel : Nat) (xs : List α), part ∈ chunks.go n fuel xs → part.length ≤ n
  | 0, _, h => by simp [chunks.go] at h
  | _ + 1, [], h => by simp [chunks.go] at h
  | fuel + 1, x :: xs, h => by
    unfold chunks.go at h
    rcases List.mem_cons.1 h with rfl | h
    · exact List.length_take_le _ _
    · exact length_le_of_mem_chunks fuel _ h

theorem flushAcks_safe (hs : s.Sized) (hc : c.Fit s) (now : Nat) : Safe s (c.flushAcks now) (·.Fit s) := by
  unfold flushAcks
  split
  · exact .pure hc
  · refine .foldlM _ _ (fun c₁ part hpart h₁ => writeControl_safe hs h₁ _ ?_ now) { hc with }
    have hlen := length_le_of_mem_chunks _ _ hpart
    rw [Payload.length_ack]
    rw [hc.mtu] at hlen
    unfold Settings.maxPayload
    unfold Payload.ackEntryLen at hlen ⊢
    omega

theorem finishDisconnect_safe (hs : s.Sized) (hc : c.Fit s) (reason : String) (now : Nat) :
    Safe s (c.finishDisconnect reason now) (·.Fit s) := by
  unfold finishDisconnect
  extract_lets goodbye
  have hgoodbye : ∀ c₁ : Connection, c₁.Fit s → Safe s (goodbye c₁) (·.Fit s) := by
    intro c₁ h₁
    simp only [goodbye]
    refine .bind .settings fun st hst => ?_
    subst st
    have hcut := Wire.length_putText_truncateText Wire.Varint.isLeb128_leb128 reason
      (Nat.le_trans (by decide) hs.maxPayload_ge)
    exact .bind (writeControl_safe hs h₁ _ hcut now) fun c₂ h₂ => close_safe h₂ reason
  split
  case h_1 | h_2 =>
    exact .bind (drainOutbound_safe hs hc now) fun ⟨_, c₁⟩ h₁ => .bind (flushAcks_safe hs h₁ now) hgoodbye
  case h_3 => exact .bind (.pure hc) hgoodbye
  case h_4 | h_5 => exact close_safe hc reason

theorem disconnect_safe (hs : s.Sized) (hc : c.Fit s) (reason : String) (now : Nat) :
    Safe s (c.disconnect reason now) (·.Fit s) := by
  unfold disconnect
  refine .bind .settings fun st hst => ?_
  subst st
  dsimp only
  split
  · split
    · exact .bind (.crash (Span.after_onlyTime _ _)) fun t _ =>
        setStatus_safe (c := { c with lingerUntil := some (t, reason) }) { hc with } _ _
    · exact finishDisconnect_safe hs hc reason now
  · exact finishDisconnect_safe hs hc reason now
  · exact close_safe hc reason
  all_goals exact .pure hc

/-! ## The handshake and received messages -/

theorem sendConnectResponse_safe (hs : s.Sized) (hc : c.Fit s) (now : Nat) :
    Safe s (c.sendConnectResponse now) (·.Fit s) := by
  unfold sendConnectResponse
  refine writeControl_safe hs (c := { c with handshake := { c.handshake with lastAttempt := some now } })
    { hc with } _ ?_ now
  rw [Wire.length_putBytes]
  exact hc.hail

theorem established_safe (hc : c.Fit s) (now : Nat) : Safe s (c.established now) (·.Fit s) :=
  setStatus_safe (c := { c with latency := c.latency.onResponse now }) { hc with } _ _

theorem applyDecision_safe (hs : s.Sized) (hc : c.Fit s) (hi : c.initiator = false) {d : Decision}
    (hd : d.Fits s.maxPayload) (now : Nat) : Safe s (c.applyDecision d now) (·.Fit s) := by
  have hacc : ∀ {P : Prop}, c.initiator = true → P := fun h => absurd (h.symm.trans hi) (by decide)
  unfold applyDecision
  cases d with
  | approve hail => exact .pure { hc with hail := hd, initiator := hacc }
  | deny reason =>
    refine .bind (writeControl_safe hs (c := { c with
      handshake := { c.handshake with awaitingApproval := false } }) { hc with initiator := hacc } _ ?_ now)
      fun c₁ h₁ => close_safe h₁ reason
    rw [Wire.length_putText]
    exact hd

theorem onRepeatedConnect_safe (hs : s.Sized) (hc : c.Fit s) (now : Nat) :
    Safe s (c.onRepeatedConnect now) (·.Fit s) := by
  unfold onRepeatedConnect
  split
  · exact sendConnectResponse_safe hs hc now
  · exact .pure hc

theorem onConnectResponse_safe (hs : s.Sized) (hc : c.Fit s) (hail : Bytes) (now : Nat) :
    Safe s (c.onConnectResponse hail now) (·.Fit s) := by
  have hempty : ([] : Bytes).length ≤ s.maxPayload := Nat.zero_le _
  unfold onConnectResponse
  split
  · exact .pure hc
  · dsimp only
    split
    · refine .bind (writeControl_safe hs (c := { c with handle := { c.handle with remoteHail := hail } })
        { hc with } _ hempty now) fun c₁ h₁ => ?_
      refine .bind (.crash (Latency.avgRtt_onlyTime _)) fun rtt _ => ?_
      exact established_safe (c := { c₁ with latency := _, handle := { c₁.handle with rtt } }) { h₁ with } now
    · exact writeControl_safe hs hc _ hempty now
    · exact .pure hc

theorem onConnectionEstablished_safe (hc : c.Fit s) (now : Nat) :
    Safe s (c.onConnectionEstablished now) (·.Fit s) := by
  unfold onConnectionEstablished
  split
  · exact established_safe hc now
  · exact .pure hc

theorem onPong_safe (hc : c.Fit s) (id now : Nat) : Safe s (c.onPong id now) (·.Fit s) := by
  unfold onPong
  exact .bind (.crash (Latency.avgRtt_onlyTime _)) fun rtt _ => .pure { hc with }

theorem onAck_safe (hc : c.Fit s) (now : Nat) (entry : Seq × Nat) : Safe s (onAck now c entry) (·.Fit s) := by
  unfold onAck
  dsimp only
  split
  · exact .bind (.release _) fun _ _ => .pure { hc with stored := hc.stored.ack _ _ }
  · exact .pure { hc with stored := hc.stored.ack _ _ }

theorem decodeThen_safe {α : Type} {payload : Bytes} {r : Reader α} {act : α → Step Connection}
    (hact : ∀ a, Safe s (act a) (·.Fit s)) :
    Safe s (decodeThen payload r act) fun x => ∀ c', x = .ok c' → c'.Fit s := by
  unfold decodeThen
  split
  · exact .bind (hact _) fun c' hc' => .pure fun _ h => Except.ok.inj h ▸ hc'
  · exact .pure fun _ h => by cases h

theorem onControl_safe (hs : s.Sized) (hc : c.Fit s) (k : Control) (payload : Bytes) (now : Nat) :
    Safe s (c.onControl k payload now) fun x => ∀ c', x = .ok c' → c'.Fit s := by
  have hok : ∀ {c' : Connection}, c'.Fit s →
      Safe s (Pure.pure (Except.ok c') : Step (Except DecodeError Connection))
        fun x => ∀ c'', x = .ok c'' → c''.Fit s :=
    fun h => .pure fun _ he => Except.ok.inj he ▸ h
  unfold onControl
  cases k with
  | connect => exact decodeThen_safe fun _ => onRepeatedConnect_safe hs hc now
  | connectResponse => exact decodeThen_safe fun hail => onConnectResponse_safe hs hc hail now
  | connectionEstablished => exact .bind (onConnectionEstablished_safe hc now) fun _ h => hok h
  | disconnect => exact decodeThen_safe fun reason => close_safe hc reason
  | keepAlive | discovery | discoveryResponse => exact hok hc
  | ping =>
    exact decodeThen_safe fun id => writeControl_safe hs hc _
      (Nat.le_trans (show (Payload.ping id).length ≤ 88 by simp [Payload.ping]) hs.maxPayload_ge) now
  | pong => exact decodeThen_safe fun id => onPong_safe hc id now
  | acknowledge =>
    exact decodeThen_safe fun entries => Safe.foldlM _ _ (fun c₁ e _ h₁ => onAck_safe h₁ now e) hc

theorem release_safe (hc : c.Fit s) {m : Inbound} (hm : m.Tagged) (now : Nat) :
    Safe s (c.release m now) (·.Fit s) := by
  unfold release
  split
  · extract_lets deliver
    -- whatever the assembler gives is handed to the application
    have hdeliver : ∀ r : Option Bytes × Connection, r.2.Fit s → Safe s (deliver r) (·.Fit s) := by
      rintro ⟨data, c₁⟩ h₁
      simp only [deliver]
      split
      · exact .bind (.count _) fun _ _ => .bind (.emit _) fun _ _ => .pure h₁
      · exact .pure h₁
    split
    · exact .bind (.pure hc) hdeliver
    · rename_i tag htag
      obtain ⟨r, hr⟩ := c.assembler.add_ok (hm tag htag) m.data now
      refine .bind (.crash_ok hr) fun ⟨res, assembler⟩ _ => ?_
      dsimp only
      split
      · exact .bind (.pure { hc with }) hdeliver
      · exact .bind (.emit _) fun _ _ => .bind (.pure { hc with }) hdeliver
  · exact .pure hc

theorem onUser_safe (hc : c.Fit s) {h : Header} (hr : h.Received) {m : Delivery} {ch : Nat}
    (hk : h.kind = .user m ch) (payload : Bytes) (now : Nat) :
    Safe s (c.onUser h payload now) (·.Fit s) := by
  have hch : ch < m.channels := by have := hr.1; rw [hk] at this; exact this
  have hmsg : ({ kind := h.kind, seq := h.seq, fragment := h.fragment, data := payload } : Inbound).kind =
      .user m ch := hk
  unfold onUser
  extract_lets classify
  -- the receive window classifies the message on the connection as it stands or as the
  -- handshake completes it, and the assembler takes what it delivers
  have hclassify : ∀ c₁ : Connection, c₁.Fit s → Safe s (classify c₁) (·.Fit s) := by
    intro c₁ h₁
    simp only [classify]
    obtain ⟨v, del, w', hrecv, hdel, hw'⟩ :=
      c₁.receiveWindow.receive_spec (P := Inbound.Tagged) hmsg hch h₁.withheld hr.2 now
    refine .bind (.crash_ok hrecv) fun ⟨_, delivered, rw⟩ heq => ?_
    cases heq
    exact .foldlM _ _ (fun c₂ x hx h₂ => release_safe h₂ (hdel x hx) now) { h₁ with withheld := hw' }
  -- a message before the handshake completes is dropped
  split
  · split
    · exact .bind (established_safe hc now) hclassify
    · exact .bind (.emit _) fun _ _ => .pure hc
  · exact .bind (.pure hc) hclassify

theorem onMessage_safe (hs : s.Sized) (hc : c.Fit s) {h : Header} (hr : h.Received) (payload : Bytes)
    (now : Nat) : Safe s (c.onMessage h payload now) (·.Fit s) := by
  unfold onMessage
  split
  · exact .pure hc
  · dsimp only
    split
    · split
      · refine .bind (onControl_safe hs hc _ payload now) fun r hr' => ?_
        split
        · exact .pure (hr' _ rfl)
        · exact .bind (.emit _) fun _ _ => .pure hc
      · exact .pure hc
    · exact .bind (.emit _) fun _ _ => .pure hc
    · rename_i hk
      exact onUser_safe hc hr hk payload now

theorem pollRequests_safe (hs : s.Sized) (hc : c.Fit s) (now : Nat) :
    Safe s (c.pollRequests now) (·.Fit s) := by
  unfold pollRequests
  extract_lets next
  -- the decision is read off whatever connection the disconnect step leaves
  have hnext : ∀ c₁ : Connection, c₁.Fit s → Safe s (next c₁) (·.Fit s) := by
    intro c₁ h₁
    simp only [next]
    split
    · rename_i d hwait hd
      -- only an acceptor waits for the application's approval
      have hi : c₁.initiator = false := by
        cases hinit : c₁.initiator
        · rfl
        · have := (h₁.initiator hinit).2
          rw [hwait] at this
          cases this
      exact applyDecision_safe hs (c := { c₁ with handle := { c₁.handle with decision := none } })
        { h₁ with decision := fun _ h => by cases h } hi (h₁.decision d (by rw [hd]; rfl)) now
    · exact .pure h₁
  split
  · exact .bind (disconnect_safe hs (c := { c with handle := { c.handle with disconnectRequest := none } })
      { hc with } _ now) hnext
  · exact .bind (.pure hc) hnext

theorem handshakeHeartbeat_safe (hs : s.Sized) (hc : c.Fit s) (now : Nat) :
    Safe s (c.handshakeHeartbeat now) (·.Fit s) := by
  unfold handshakeHeartbeat
  refine .bind .settings fun st hst => ?_
  subst st
  dsimp only
  split
  · rename_i hinit
    have hconnect := (hc.initiator hinit).1
    -- the initiator waits for the next retry, gives up, or writes a Connect
    split_ifs
    · exact .pure hc
    · exact close_safe hc _
    · refine writeControl_safe hs ?_ _ ?_ now
      · exact { hc with }
      · rw [Payload.length_connect]
        exact hconnect
  · refine .bind (.crash (Span.mulCount_onlyTime _ _)) fun limit _ => ?_
    split
    · exact close_safe hc _
    · split
      · refine sendConnectResponse_safe hs ?_ now
        exact { hc with }
      · exact .pure hc

theorem connectedHeartbeat_safe (hs : s.Sized) (hc : c.Fit s) (now : Nat) :
    Safe s (c.connectedHeartbeat now) (·.Fit s) := by
  unfold connectedHeartbeat
  refine .bind .settings fun st hst => ?_
  subst st
  split
  · exact close_safe hc _
  extract_lets keepAlive regular
  have hkeep : ∀ c₁ : Connection, c₁.Fit s → Safe s (keepAlive c₁) (·.Fit s) := by
    intro c₁ h₁
    simp only [keepAlive]
    split
    · exact writeControl_safe hs h₁ _ (Nat.zero_le _) now
    · exact .pure h₁
  -- resend, send what is queued, acknowledge, keep alive
  have hregular : ∀ c₁ : Connection, c₁.Fit s → Safe s (regular c₁) (·.Fit s) := by
    intro c₁ h₁
    simp only [regular]
    refine .bind (resendDue_safe hs h₁ now) fun c₂ h₂ =>
      .bind (drainOutbound_safe hs h₂ now) fun ⟨wrote, c₃⟩ h₃ => ?_
    dsimp only
    split
    · exact .bind (flushAcks_safe hs h₃ now) hkeep
    · exact .bind (.pure h₃) hkeep
  split
  rename_i expired assembler _
  refine .bind (.forIn (fun _ _ => .bind (.emit _) fun _ _ => .pure trivial) expired) fun _ _ => ?_
  dsimp only
  split
  · refine .bind (writeControl_safe hs ?_ _ (Nat.le_trans (show (Payload.ping _).length ≤ 88 by
      simp [Payload.ping]) hs.maxPayload_ge) now) hregular
    exact { hc with }
  · exact .bind (.pure (P := fun c₁ : Connection => c₁.Fit s) { hc with }) hregular

theorem lingerHeartbeat_safe (hs : s.Sized) (hc : c.Fit s) (now : Nat) :
    Safe s (c.lingerHeartbeat now) (·.Fit s) := by
  unfold lingerHeartbeat
  split
  · refine .bind (resendDue_safe hs hc now) fun c₁ h₁ =>
      .bind (drainOutbound_safe hs h₁ now) fun ⟨_, c₂⟩ h₂ => ?_
    dsimp only
    split
    · exact finishDisconnect_safe hs h₂ _ now
    · exact flushAcks_safe hs h₂ now
  · exact .pure hc

/-- The periodic step keeps every connection fit: what the application asked for first, then
what the status calls for. -/
theorem heartbeat_safe (hs : s.Sized) (hc : c.Fit s) (now : Nat) :
    Safe s (c.heartbeat now) (·.Fit s) := by
  unfold heartbeat
  refine .bind (pollRequests_safe hs hc now) fun c₁ h₁ => ?_
  split
  · exact handshakeHeartbeat_safe hs h₁ now
  · exact connectedHeartbeat_safe hs h₁ now
  · exact lingerHeartbeat_safe hs h₁ now
  all_goals exact .pure h₁

end Connection

end ReliableUdp
