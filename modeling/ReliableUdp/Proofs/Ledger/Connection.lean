import ReliableUdp.Proofs.Ledger.Steps
import Mathlib.Data.Multiset.OrderedMonoid
import Mathlib.Algebra.Order.Sub.Basic

/-!
# Every function of a connection keeps the books

One lemma per function: run on a tidy connection whose references the books count, it leaves a
tidy connection whose references the books count, with the same handle number.
-/

namespace ReliableUdp
namespace Connection

open Step Step.Conserves SendWindow

variable {H : Multiset Nat} {e : Nat} {c : Connection} {now : Nat} {reason : String}

/-- The references a drain holds: the messages put back so far and the connection's own. -/
def Drain.holds (acc : Drain) : Multiset Nat := ↑(acc.2.1.map (·.payload.id)) + acc.2.2.holds

/-! ## Writing and status -/

theorem setStatus_books (c : Connection) (s : Status) (reason : String) :
    Conserves H e c.holds (c.setStatus s reason) holds fun c' =>
      c'.handle.id = c.handle.id ∧ c'.status = s ∧ c'.sendWindow = c.sendWindow := by
  unfold setStatus
  split
  · rename_i hs
    exact .pure ⟨rfl, hs, rfl⟩ rfl
  · exact .bind (emit _) fun _ _ => .pure ⟨rfl, rfl, rfl⟩ rfl

theorem writeControl_books (ht : c.Tidy) (k : Control) (p : Bytes) (now : Nat) :
    Conserves H e c.holds (c.writeControl k p now) holds (Same c) := by
  unfold writeControl
  exact .bind crash fun _ _ => .bind crash fun _ _ => .pure ⟨rfl, rfl, ht.of_eq rfl rfl⟩ rfl

theorem writeUser_books (ht : c.Tidy) (m : Queued) (seq : Option Seq) :
    Conserves H e c.holds (c.writeUser m seq) holds fun c' => c'.handle = c.handle ∧ Same c c' := by
  unfold writeUser
  exact .bind crash fun _ _ => .bind crash fun _ _ => .pure ⟨rfl, rfl, rfl, ht.of_eq rfl rfl⟩ rfl

theorem close_books (ht : c.Tidy) (reason : String) :
    Conserves H e c.holds (c.close reason) holds fun c' => Kept c c' ∧ c'.status = .disconnected := by
  unfold close
  split
  · rename_i hs
    exact .pure ⟨⟨rfl, ht⟩, hs⟩ rfl
  · have hclear := held_clear c.sendWindow
    have hids : (↑((c.sendWindow.stored.toList.flatten.map (·.msg)).map (·.payload.id)) : Multiset Nat) =
        c.sendWindow.held := hclear.2
    refine .bind (Conserves.release (le_of_eq_of_le hclear.2 (Multiset.le_add_left _ _))) fun _ _ => ?_
    refine .bind (Conserves.release ?_) fun _ _ => ?_
    · rw [hids, holds, add_tsub_cancel_right]
      exact le_rfl
    dsimp only
    refine (congr (setStatus_books _ _ _) ?_ fun _ _ => rfl).mono fun c' ⟨hid, hs, hw⟩ => ?_
    · rw [hids, holds, add_tsub_cancel_right, Handle.holds, tsub_self]
      exact hclear.1
    · refine ⟨⟨hid, ⟨hw ▸ Timely.clear c.sendWindow, fun _ => ?_⟩⟩, hs⟩
      rw [hw]
      rfl

/-! ## Sending -/

theorem sendUser_books (ht : c.Tidy) (hs : c.status ≠ .disconnected) (m : Queued) (now : Nat) :
    Conserves H e (c.holds + {m.payload.id}) (c.sendUser m now) holds
      fun c' => c'.handle = c.handle ∧ Same c c' := by
  unfold sendUser
  refine .bind crash fun ⟨seq, w₁⟩ hassign => ?_
  have ht₁ : ({ c with sendWindow := w₁ } : Connection).Tidy := Tidy.of_open (ht.timely.assign hassign) hs
  refine .bind (framed (M := {m.payload.id}) (writeUser_books ht₁ m seq) ?_ fun _ _ => rfl) fun c₂ ⟨hh₂, hs₂⟩ => ?_
  · simp only [holds, held_assign hassign]
  refine .bind (markSent m.payload) fun _ _ => ?_
  have hsame : Same c { c₂ with lastSent := now } := ⟨by simp [hh₂], hs₂.2.1, hs₂.2.2.of_eq rfl rfl⟩
  split
  · split
    · refine .bind settings fun _ _ => .bind crash fun rtt _ => .bind crash fun sw hsw =>
        .pure ⟨hh₂, hsame.1, hsame.2.1, .of_open (hs₂.2.2.timely.store hsw) fun hd => hs (hs₂.2.1 ▸ hd)⟩ ?_
      show c₂.handle.holds + sw.held = c₂.handle.holds + c₂.sendWindow.held + {m.payload.id}
      rw [held_store hs₂.2.2.timely.size hsw, add_assoc]
    · exact .bind (release_one m) fun _ _ => .pure ⟨hh₂, hsame⟩ rfl
  · exact .bind (release_one m) fun _ _ => .pure ⟨hh₂, hsame⟩ rfl

theorem resendDue_books (ht : c.Tidy) (hs : c.status ≠ .disconnected) (now : Nat) :
    Conserves H e c.holds (c.resendDue now) holds (Same c) := by
  unfold resendDue
  refine .bind settings fun s _ => .bind crash fun rtt _ => .bind crash fun r hsw => ?_
  obtain ⟨pass, sw⟩ := r
  have ht₀ : ({ c with sendWindow := sw } : Connection).Tidy := .of_open (ht.timely.resendDue hsw) hs
  have hsame : Same c { c with sendWindow := sw } := ⟨rfl, rfl, ht₀⟩
  -- the messages resent are written one by one; the dropped ones stay counted until released
  have hwrites : ∀ (l : List (Queued × Seq)) (H : Multiset Nat) (c₁ : Connection), Same c c₁ →
      Conserves H e (c₁.holds + ↑(pass.dropped.map (·.payload.id)))
        (l.foldlM (fun c x => writeUser c x.1 (some x.2)) c₁)
        (fun c₂ => c₂.holds + ↑(pass.dropped.map (·.payload.id))) (Same c) :=
    foldlM_quiet fun H c₁ x h₁ =>
      (framed (writeUser_books h₁.2.2 x.1 (some x.2)) rfl fun _ _ => rfl).mono fun _ h => h₁.trans h.2
  refine .bind (hwrites pass.resent H _ hsame |>.congr ?_ fun _ _ => rfl) fun c₂ h₂ => ?_
  · rw [holds, held_resendDue hsw, ← add_assoc]
    rfl
  extract_lets n d jpRelease jpCount
  -- counting and warning leave the pool alone; the release drops the references counted aside
  have hrelease : ∀ u, Conserves H e (c₂.holds + ↑(pass.dropped.map (·.payload.id))) (jpRelease u) holds
      (Same c) := by
    intro u
    refine .bind (Conserves.release (Multiset.le_add_left _ _)) fun _ _ => .pure ?_ ?_
    · split
      · exact ⟨h₂.1, h₂.2.1, h₂.2.2.of_eq rfl rfl⟩
      · exact h₂
    · rw [add_tsub_cancel_right]
      split <;> rfl
  have hcount : ∀ u, Conserves H e (c₂.holds + ↑(pass.dropped.map (·.payload.id))) (jpCount u) holds
      (Same c) := by
    intro u
    simp -zeta only [jpCount]
    split
    · exact .bind (count _) fun _ _ => .bind (emit _) fun u _ => hrelease u
    · exact hrelease ()
  split
  · exact .bind (count _) fun u _ => hcount u
  · exact hcount ()

/-! ## Draining the queues -/

theorem Drain.holds_back (wrote : Bool) (deferred : List Queued) (c : Connection) (m : Queued) :
    Drain.holds (wrote, deferred ++ [m], c) = Drain.holds (wrote, deferred, c) + {m.payload.id} := by
  simp only [Drain.holds, List.map_append, List.map_cons, List.map_nil, ← Multiset.coe_add,
    Multiset.coe_singleton]
  exact add_right_comm _ _ _

theorem offer_books {acc : Drain} (ht : acc.2.2.Tidy) (hs : acc.2.2.status ≠ .disconnected) (m : Queued) :
    Conserves H e (Drain.holds acc + {m.payload.id}) (offer now acc m) Drain.holds
      fun acc' => acc'.2.2.handle = acc.2.2.handle ∧ Same acc.2.2 acc'.2.2 := by
  obtain ⟨wrote, deferred, c⟩ := acc
  unfold offer
  refine .bind settings fun s _ => ?_
  split
  · exact .pure ⟨rfl, rfl, rfl, ht⟩ (Drain.holds_back _ _ _ _)
  · refine .bind crash fun _ _ => ?_
    split
    · exact .pure ⟨rfl, rfl, rfl, ht⟩ (Drain.holds_back _ _ _ _)
    · refine .bind (framed (M := ↑(deferred.map (·.payload.id))) (sendUser_books ht hs m now) ?_
        fun _ _ => rfl) fun c' h => .pure h (add_comm (↑(deferred.map (·.payload.id)) : Multiset Nat) _)
      simp only [Drain.holds]
      abel

/-- Taking a message at a drain: one too large is cut into fragments, its reference traded for
one per fragment, and each fragment offered in turn. -/
theorem drainOne_books {acc : Drain} (ht : acc.2.2.Tidy) (hs : acc.2.2.status ≠ .disconnected)
    (maxWhole : Nat) (m : Queued) :
    Conserves H e (Drain.holds acc + {m.payload.id}) (drainOne now maxWhole acc m) Drain.holds
      fun acc' => acc'.2.2.handle = acc.2.2.handle ∧ Same acc.2.2 acc'.2.2 := by
  obtain ⟨wrote, deferred, c⟩ := acc
  unfold drainOne
  refine .bind settings fun s _ => ?_
  split
  · exact .pure ⟨rfl, rfl, rfl, ht⟩ (Drain.holds_back _ _ _ _)
  · split
    · refine viaPool (F := fun pool => Fragments.split pool m c.nextGroup s.maxPayload)
        (K := fun frags => Drain.holds (wrote, deferred, { c with nextGroup := (c.nextGroup + 1) % 65536 }) +
          (frags.map fun f => ({f.payload.id} : Multiset Nat)).sum) (P := fun _ => True) ?_ fun frags _ => ?_
      · intro pool frags pool' hb hsplit
        obtain ⟨hb', hk, -⟩ := Fragments.split_books hb (by simp) hsplit
        refine ⟨?_, hk, trivial⟩
        have heq : (H + (Drain.holds (wrote, deferred, c) + {m.payload.id}) + ↑(frags.map (·.payload.id))).erase
            m.payload.id = H + (Drain.holds (wrote, deferred, c) + ↑(frags.map (·.payload.id))) := by
          rw [show H + (Drain.holds (wrote, deferred, c) + {m.payload.id}) + ↑(frags.map (·.payload.id)) =
            m.payload.id ::ₘ (H + (Drain.holds (wrote, deferred, c) + ↑(frags.map (·.payload.id)))) by
              rw [← Multiset.singleton_add]; abel, Multiset.erase_cons_head]
        rwa [heq, coe_map_eq_sum] at hb'
      · -- the fragments are offered one by one, each bringing its own reference
        dsimp only
        refine foldlM (fun H (b : Drain) f (hb : b.2.2.handle = c.handle ∧ Same c b.2.2) =>
          (offer_books hb.2.2.2 (fun hd => hs (hb.2.2.1 ▸ hd)) f).mono
          fun b' h => ⟨h.1.trans hb.1, hb.2.trans h.2⟩) frags H _ ⟨rfl, rfl, rfl, ht.of_eq rfl rfl⟩
    · exact offer_books ht hs m

theorem drainOutbound_books (ht : c.Tidy) (hs : c.status ≠ .disconnected) (now : Nat) :
    Conserves H e c.holds (c.drainOutbound now) (·.2.holds) fun r => Same c r.2 := by
  unfold drainOutbound
  refine .bind settings fun s _ => ?_
  simp only [List.foldlM_cons, List.foldlM_nil, bind_pure]
  -- the queues are emptied first; each queue's turn puts back what must wait, in one list
  have hqueue : ∀ (acc : Bool × List (List Queued) × Connection) (q : List Queued) (H : Multiset Nat),
      acc.2.2.handle.outbound = [] → Same c acc.2.2 →
      Conserves H e (↑(acc.2.1.flatten.map (·.payload.id)) + acc.2.2.holds + ↑(q.map (·.payload.id)))
        (do
          let x ← q.foldlM (drainOne now (c.writer.maxPayload (Header.maxLen - 6))) (acc.1, [], acc.2.2)
          pure (x.1, acc.2.1 ++ [x.2.1], x.2.2))
        (fun acc' => ↑(acc'.2.1.flatten.map (·.payload.id)) + acc'.2.2.holds)
        fun acc' => (∃ d, acc'.2.1 = acc.2.1 ++ [d]) ∧ acc'.2.2.handle.outbound = [] ∧ Same c acc'.2.2 := by
    intro acc q H hout hsame
    refine .bind (framed (M := ↑(acc.2.1.flatten.map (·.payload.id)))
      (foldlM (fun H (b : Drain) m (hb : b.2.2.handle = acc.2.2.handle ∧ Same acc.2.2 b.2.2) =>
        (drainOne_books hb.2.2.2 (fun hd => hs (hsame.2.1 ▸ hb.2.2.1 ▸ hd)) _ m).mono
          fun b' h => ⟨h.1.trans hb.1, hb.2.trans h.2⟩) q _ (acc.1, [], acc.2.2) ⟨rfl, Same.refl hsame.2.2⟩)
      ?_ fun _ _ => rfl) fun x hx => .pure ⟨⟨x.2.1, rfl⟩, ?_, hsame.trans hx.2⟩ ?_
    · rw [← coe_map_eq_sum]
      simp only [Drain.holds, List.map_nil, Multiset.coe_nil, zero_add]
      abel
    · rw [hx.1, hout]
    · simp only [Drain.holds, List.flatten_append, List.flatten_cons, List.flatten_nil, List.append_nil,
        List.map_append, ← Multiset.coe_add]
      abel
  -- the three turns, high before normal before low, each with the later queues set aside
  refine .bind (Q := fun a => (∃ d₀ d₁ d₂, a.2.1 = [d₀, d₁, d₂]) ∧ a.2.2.handle.outbound = [] ∧ Same c a.2.2)
    (K := fun a => ↑(a.2.1.flatten.map (·.payload.id)) + a.2.2.holds) ?_
    fun x ⟨⟨d₀, d₁, d₂, hk⟩, hout, hx⟩ => .pure ⟨hx.1, hx.2.1, hx.2.2.of_eq rfl rfl⟩ ?_
  · refine .bind (framed (M := ↑(c.handle.normal.map (·.payload.id)) + ↑(c.handle.low.map (·.payload.id)))
      (hqueue (false, [], _) c.handle.high _ rfl ⟨rfl, rfl, ht.of_eq rfl rfl⟩) ?_ fun _ _ => rfl)
      fun a₁ ⟨⟨d₀, h₀⟩, hout₁, hs₁⟩ => ?_
    · simp only [holds, Handle.holds, Handle.outbound, List.flatten_nil, List.map_nil, List.map_append,
        List.append_nil, ← Multiset.coe_add, Multiset.coe_nil, zero_add]
      abel
    refine .bind (framed (M := ↑(c.handle.low.map (·.payload.id))) (hqueue a₁ c.handle.normal _ hout₁ hs₁)
      (add_assoc _ _ _).symm fun _ _ => rfl) fun a₂ ⟨⟨d₁, h₁⟩, hout₂, hs₂⟩ => ?_
    exact (hqueue a₂ c.handle.low _ hout₂ hs₂).mono fun a₃ ⟨⟨d₂, h₂⟩, hout₃, hs₃⟩ =>
      ⟨⟨d₀, d₁, d₂, by rw [h₂, h₁, h₀]; rfl⟩, hout₃, hs₃⟩
  · have hx₀ : x.2.2.holds = x.2.2.sendWindow.held := by simp [holds, Handle.holds, hout]
    rw [hx₀, hk]
    simp [holds, Handle.holds, Handle.outbound]

theorem flushAcks_books (ht : c.Tidy) (now : Nat) :
    Conserves H e c.holds (c.flushAcks now) holds (Same c) := by
  unfold flushAcks
  split
  · exact .pure (Same.refl ht) rfl
  · split
    rename_i acks rw _
    exact foldlM_quiet (fun H c₁ _ (h₁ : Same c c₁) => (writeControl_books h₁.2.2 _ _ _).mono
      fun _ h => h₁.trans h) _ H { c with receiveWindow := rw } ⟨rfl, rfl, ht.of_eq rfl rfl⟩

/-! ## Closing -/

theorem finishDisconnect_books (ht : c.Tidy) (reason : String) (now : Nat) :
    Conserves H e c.holds (c.finishDisconnect reason now) holds
      fun c' => Kept c c' ∧ c'.status = .disconnected := by
  unfold finishDisconnect
  lift_lets
  intro finish
  have hfinish : ∀ c₁ : Connection, Kept c c₁ → Conserves H e c₁.holds (finish c₁) holds
      fun c' => Kept c c' ∧ c'.status = .disconnected := by
    intro c₁ h₁
    simp only [finish]
    exact .bind settings fun _ _ => .bind (writeControl_books h₁.2 _ _ _) fun c₂ h₂ =>
      (close_books h₂.2.2 reason).mono fun _ h₃ => ⟨h₁.trans (h₂.kept.trans h₃.1), h₃.2⟩
  -- an open connection sends what is queued and its acknowledgements first
  have hdrain : c.status ≠ .disconnected → ∀ r : Bool × Connection, Same c r.2 →
      Conserves H e r.2.holds (r.2.flushAcks now >>= finish) holds
        fun c' => Kept c c' ∧ c'.status = .disconnected := fun _ ⟨_, c₁⟩ h₁ =>
    .bind (flushAcks_books h₁.2.2 now) fun c₂ h₂ => hfinish c₂ (h₁.trans h₂).kept
  split
  · next hst => exact .bind (drainOutbound_books ht (by rw [hst]; decide) now) (hdrain (by rw [hst]; decide))
  · next hst => exact .bind (drainOutbound_books ht (by rw [hst]; decide) now) (hdrain (by rw [hst]; decide))
  · exact .bind (.pure ⟨rfl, ht⟩ rfl) hfinish
  · exact close_books ht reason
  · exact close_books ht reason

theorem disconnect_books (ht : c.Tidy) (reason : String) (now : Nat) :
    Conserves H e c.holds (c.disconnect reason now) holds (Kept c) := by
  unfold disconnect
  refine .bind settings fun _ _ => ?_
  dsimp only
  split
  · split
    · refine .bind crash fun t _ => (setStatus_books { c with lingerUntil := some (t, reason) } _ _).mono
        fun c' ⟨hid, hs, hw⟩ => ⟨hid, .of_open (hw ▸ ht.timely) (by rw [hs]; decide)⟩
    · exact (finishDisconnect_books ht reason now).mono fun _ h => h.1
  · exact (finishDisconnect_books ht reason now).mono fun _ h => h.1
  · exact (close_books ht reason).mono fun _ h => h.1
  · exact .pure ⟨rfl, ht⟩ rfl
  · exact .pure ⟨rfl, ht⟩ rfl

/-! ## The handshake and received messages -/

theorem sendConnectResponse_books (ht : c.Tidy) (now : Nat) :
    Conserves H e c.holds (c.sendConnectResponse now) holds (Same c) :=
  writeControl_books (c := { c with handshake := { c.handshake with lastAttempt := some now } })
    (ht.of_eq rfl rfl) _ _ _

theorem established_books (ht : c.Tidy) (now : Nat) :
    Conserves H e c.holds (c.established now) holds (Kept c) :=
  (setStatus_books { c with latency := c.latency.onResponse now } _ _).mono fun _ ⟨hid, hs, hw⟩ =>
    ⟨hid, .of_open (hw ▸ ht.timely) (by rw [hs]; decide)⟩

theorem applyDecision_books (ht : c.Tidy) (d : Decision) (now : Nat) :
    Conserves H e c.holds (c.applyDecision d now) holds (Kept c) := by
  unfold applyDecision
  dsimp only
  split
  · exact .pure ⟨rfl, ht.of_eq rfl rfl⟩ rfl
  · exact .bind (writeControl_books (c := { c with handshake := { c.handshake with awaitingApproval := false } })
      (ht.of_eq rfl rfl) _ _ _) fun c₁ h₁ => (close_books h₁.2.2 _).mono fun _ h => h₁.kept.trans h.1

theorem onRepeatedConnect_books (ht : c.Tidy) (now : Nat) :
    Conserves H e c.holds (c.onRepeatedConnect now) holds (Same c) := by
  unfold onRepeatedConnect
  split
  · exact sendConnectResponse_books ht now
  · exact .pure (Same.refl ht) rfl

theorem onConnectResponse_books (ht : c.Tidy) (hail : Bytes) (now : Nat) :
    Conserves H e c.holds (c.onConnectResponse hail now) holds (Kept c) := by
  unfold onConnectResponse
  split
  · exact .pure ⟨rfl, ht⟩ rfl
  · split
    · refine .bind (writeControl_books (c := { c with handle := { c.handle with remoteHail := hail } })
        (ht.of_eq rfl rfl) _ _ _) fun c₁ h₁ => .bind crash fun rtt _ => ?_
      exact (established_books
        (c := { c₁ with latency := c₁.latency.seed (now - c₁.handshake.started), handle.rtt := rtt })
        (h₁.2.2.of_eq rfl rfl) now).mono fun _ h => ⟨h.1.trans h₁.1, h.2⟩
    · exact (writeControl_books ht _ _ _).mono fun _ h => h.kept
    · exact .pure ⟨rfl, ht⟩ rfl

theorem onConnectionEstablished_books (ht : c.Tidy) (now : Nat) :
    Conserves H e c.holds (c.onConnectionEstablished now) holds (Kept c) := by
  unfold onConnectionEstablished
  split
  · exact established_books ht now
  · exact .pure ⟨rfl, ht⟩ rfl

theorem onPong_books (ht : c.Tidy) (id now : Nat) :
    Conserves H e c.holds (c.onPong id now) holds (Same c) := by
  unfold onPong
  exact .bind crash fun _ _ => .pure ⟨rfl, rfl, ht.of_eq rfl rfl⟩ rfl

theorem onAck_books (ht : c.Tidy) (hs : c.status ≠ .disconnected) (now : Nat) (entry : Seq × Nat) :
    Conserves H e c.holds (onAck now c entry) holds (Same c) := by
  unfold onAck
  have hheld := held_ack ht.timely.size entry.1 entry.2
  have htimely := ht.timely.ack entry.1 entry.2
  split
  · rename_i m sw heq
    rw [heq] at hheld htimely
    split
    · rename_i m
      refine congr (.bind (release_one m) fun _ _ => .pure ⟨rfl, rfl, .of_open htimely hs⟩ rfl) ?_ fun _ _ => rfl
      simp only [holds, hheld, Option.toList_some, List.map_cons, List.map_nil, Multiset.coe_singleton]
      exact (add_assoc _ _ _).symm
    · refine .pure ⟨rfl, rfl, .of_open htimely hs⟩ ?_
      simp [holds, hheld]

theorem decodeThen_books {α : Type} {p : Bytes} {r : Reader α} {act : α → Step Connection} (ht : c.Tidy)
    (hact : ∀ a, Conserves H e c.holds (act a) holds (Kept c)) :
    Conserves H e c.holds (decodeThen p r act) (fun x => (x.toOption.getD c).holds)
      fun x => Kept c (x.toOption.getD c) := by
  unfold decodeThen
  split
  · exact .bind (hact _) fun _ h => .pure h rfl
  · exact .pure ⟨rfl, ht⟩ rfl

theorem onControl_books (ht : c.Tidy) (hs : c.status ≠ .disconnected) (k : Control) (p : Bytes) (now : Nat) :
    Conserves H e c.holds (c.onControl k p now) (fun x => (x.toOption.getD c).holds)
      fun x => Kept c (x.toOption.getD c) := by
  unfold onControl
  cases k with
  | connect => exact decodeThen_books ht fun _ => (onRepeatedConnect_books ht now).mono fun _ h => h.kept
  | connectResponse => exact decodeThen_books ht fun hail => onConnectResponse_books ht hail now
  | connectionEstablished => exact .bind (onConnectionEstablished_books ht now) fun _ h => .pure h rfl
  | disconnect => exact decodeThen_books ht fun reason => (close_books ht reason).mono fun _ h => h.1
  | keepAlive | discovery | discoveryResponse => exact .pure ⟨rfl, ht⟩ rfl
  | ping => exact decodeThen_books ht fun _ => (writeControl_books ht _ _ _).mono fun _ h => h.kept
  | pong => exact decodeThen_books ht fun id => (onPong_books ht id now).mono fun _ h => h.kept
  | acknowledge =>
    exact decodeThen_books ht fun entries => (foldlM_quiet (fun H c₁ entry (h₁ : Same c c₁) =>
      (onAck_books h₁.2.2 (h₁.2.1 ▸ hs) now entry).mono fun _ h => h₁.trans h) entries _ c
        (Same.refl ht)).mono fun _ h => h.kept

theorem release_books (ht : c.Tidy) (m : Inbound) (now : Nat) :
    Conserves H e c.holds (c.release m now) holds (Same c) := by
  unfold release
  split
  · simp only [pure_bind]
    split
    · exact .bind (count _) fun _ _ => .bind (emit _) fun _ _ => .pure (Same.refl ht) rfl
    · refine .bind crash fun _ _ => ?_
      split
      · split
        · exact .bind (count _) fun _ _ => .bind (emit _) fun _ _ => .pure ⟨rfl, rfl, ht.of_eq rfl rfl⟩ rfl
        · exact .pure ⟨rfl, rfl, ht.of_eq rfl rfl⟩ rfl
      · exact .bind (emit _) fun _ _ => .pure ⟨rfl, rfl, ht.of_eq rfl rfl⟩ rfl
  · exact .pure (Same.refl ht) rfl

theorem onUser_books (ht : c.Tidy) (h : Header) (payload : Bytes) (now : Nat) :
    Conserves H e c.holds (c.onUser h payload now) holds (Kept c) := by
  unfold onUser
  simp only [pure_bind]
  have releases : ∀ (l : List Inbound) (c₁ : Connection), c₁.Tidy →
      Conserves H e c₁.holds (l.foldlM (fun c m => c.release m now) c₁) holds (Same c₁) := fun l c₁ h₁ =>
    foldlM_quiet (fun H c₂ m (h₂ : Same c₁ c₂) => (release_books h₂.2.2 m now).mono fun _ h => h₂.trans h)
      l H c₁ (Same.refl h₁)
  split
  · split
    · refine .bind (established_books ht now) fun c₁ h₁ => .bind crash fun r _ => ?_
      exact (releases _ { c₁ with receiveWindow := r.2.2 } (h₁.2.of_eq rfl rfl)).mono
        fun _ h => ⟨h.1.trans h₁.1, h.2.2⟩
    · exact .bind (emit _) fun _ _ => .pure ⟨rfl, ht⟩ rfl
  · exact .bind crash fun r _ => (releases _ { c with receiveWindow := r.2.2 } (ht.of_eq rfl rfl)).mono
      fun _ h => h.kept

theorem onMessage_books (ht : c.Tidy) (h : Header) (payload : Bytes) (now : Nat) :
    Conserves H e c.holds (c.onMessage h payload now) holds (Kept c) := by
  unfold onMessage
  split
  · exact .pure ⟨rfl, ht⟩ rfl
  · rename_i hs
    split
    · split
      · refine .bind (onControl_books ht hs _ _ now) fun x hx => ?_
        cases x with
        | ok c' => exact .pure hx rfl
        | error err => exact .bind (emit _) fun _ _ => .pure ⟨rfl, ht⟩ rfl
      · exact .pure ⟨rfl, ht⟩ rfl
    · exact .bind (emit _) fun _ _ => .pure ⟨rfl, ht⟩ rfl
    · exact onUser_books ht h payload now

/-! ## The periodic step -/

theorem pollRequests_books (ht : c.Tidy) (now : Nat) :
    Conserves H e c.holds (c.pollRequests now) holds (Kept c) := by
  unfold pollRequests
  lift_lets
  intro decision
  have hdecision : ∀ c₁ : Connection, Kept c c₁ → Conserves H e c₁.holds (decision c₁) holds (Kept c) := by
    intro c₁ h₁
    simp only [decision]
    split
    · exact (applyDecision_books (c := { c₁ with handle.decision := none }) (h₁.2.of_eq rfl rfl) _ now).mono
        fun _ h => h₁.trans h
    · exact .pure h₁ rfl
  split
  · exact .bind (disconnect_books (c := { c with handle.disconnectRequest := none }) (ht.of_eq rfl rfl) _ now)
      hdecision
  · exact .bind (.pure ⟨rfl, ht⟩ rfl) hdecision

theorem handshakeHeartbeat_books (ht : c.Tidy) (now : Nat) :
    Conserves H e c.holds (c.handshakeHeartbeat now) holds (Kept c) := by
  unfold handshakeHeartbeat
  refine .bind settings fun _ _ => ?_
  split
  · lift_lets
    intro due
    split
    · exact .pure ⟨rfl, ht⟩ rfl
    · split
      · exact (close_books ht _).mono fun _ h => h.1
      · dsimp only
        exact (writeControl_books (ht.of_eq rfl rfl) _ _ _ (c := { c with handshake :=
          { c.handshake with attempts := c.handshake.attempts + 1, lastAttempt := some now } })).mono
            fun _ h => ⟨h.1, h.2.2⟩
  · refine .bind crash fun _ _ => ?_
    split
    · exact (close_books ht _).mono fun _ h => h.1
    · split
      · exact (sendConnectResponse_books (c := { c with handshake.responseSent := true }) (ht.of_eq rfl rfl)
          now).mono fun _ h => ⟨h.1, h.2.2⟩
      · exact .pure ⟨rfl, ht⟩ rfl

theorem connectedHeartbeat_books (ht : c.Tidy) (hs : c.status ≠ .disconnected) (now : Nat) :
    Conserves H e c.holds (c.connectedHeartbeat now) holds (Kept c) := by
  unfold connectedHeartbeat
  refine .bind settings fun _ _ => ?_
  split
  · exact (close_books ht _).mono fun _ h => h.1
  · split
    refine .bind (forIn_emit _ _) fun _ _ => ?_
    lift_lets
    intro c₀ keepAlive regular
    have hkeepAlive : ∀ c₁, Same c₀ c₁ → Conserves H e c₁.holds (keepAlive c₁) holds (Kept c) := by
      intro c₁ h₁
      simp only [keepAlive]
      split
      · exact (writeControl_books h₁.2.2 _ _ _).mono fun _ h => ⟨h.1.trans h₁.1, h.2.2⟩
      · exact .pure ⟨h₁.1, h₁.2.2⟩ rfl
    -- resend, drain, acknowledge when due, keep alive: every turn keeps the status open
    have hregular : ∀ c₁, Same c₀ c₁ → Conserves H e c₁.holds (regular c₁) holds (Kept c) := by
      intro c₁ h₁
      simp only [regular]
      refine .bind (resendDue_books h₁.2.2 (h₁.2.1 ▸ hs) now) fun c₂ h₂ =>
        .bind (drainOutbound_books h₂.2.2 (h₂.2.1 ▸ h₁.2.1 ▸ hs) now) fun ⟨_, c₃⟩ h₃ => ?_
      have h₃' : Same c₀ c₃ := h₁.trans (h₂.trans h₃)
      dsimp only
      split
      · exact .bind (flushAcks_books h₃'.2.2 now) fun c₄ h₄ => hkeepAlive c₄ (h₃'.trans h₄)
      · exact .bind (.pure h₃' rfl) hkeepAlive
    split
    · split
      rename_i latency _
      exact .bind (writeControl_books (c := { c₀ with latency }) (ht.of_eq rfl rfl) _ _ _)
        fun c₁ h₁ => hregular c₁ ⟨h₁.1, h₁.2.1, h₁.2.2⟩
    · exact .bind (.pure (Same.refl (ht.of_eq rfl rfl)) rfl) hregular

theorem lingerHeartbeat_books (ht : c.Tidy) (hs : c.status ≠ .disconnected) (now : Nat) :
    Conserves H e c.holds (c.lingerHeartbeat now) holds (Kept c) := by
  unfold lingerHeartbeat
  split
  · refine .bind (resendDue_books ht hs now) fun c₁ h₁ =>
      .bind (drainOutbound_books h₁.2.2 (h₁.2.1 ▸ hs) now) fun ⟨_, c₂⟩ h₂ => ?_
    have h₂' : Same c c₂ := h₁.trans h₂
    dsimp only
    split
    · exact (finishDisconnect_books h₂'.2.2 _ now).mono fun _ h => h₂'.kept.trans h.1
    · exact (flushAcks_books h₂'.2.2 now).mono fun _ h => (h₂'.trans h).kept
  · exact .pure ⟨rfl, ht⟩ rfl

/-- The periodic step of a connection keeps the books, whatever its status. -/
theorem heartbeat_books (ht : c.Tidy) (now : Nat) :
    Conserves H e c.holds (c.heartbeat now) holds (Kept c) := by
  unfold heartbeat
  refine .bind (pollRequests_books ht now) fun c₁ h₁ => ?_
  split
  · exact (handshakeHeartbeat_books h₁.2 now).mono fun _ h => h₁.trans h
  · next hst => exact (connectedHeartbeat_books h₁.2 (by rw [hst]; decide) now).mono fun _ h => h₁.trans h
  · next hst => exact (lingerHeartbeat_books h₁.2 (by rw [hst]; decide) now).mono fun _ h => h₁.trans h
  · exact .pure h₁ rfl
  · exact .pure h₁ rfl

/-! ## New connections -/

theorem create_books (h : Handle) (initiator : Bool) (hs : Handshake) (now : Nat) :
    Conserves H e h.holds (create h initiator hs now) holds fun c => c.handle.id = h.id ∧ c.Tidy := by
  unfold create
  refine .bind settings fun s _ => ?_
  refine (congr (setStatus_books _ _ _) ?_ fun _ _ => rfl).mono fun c ⟨hid, hst, hw⟩ =>
    ⟨hid, .of_open (hw ▸ Timely.fresh _) (by rw [hst]; decide)⟩
  simp [holds, held, all]

theorem outgoing_books (h : Handle) (hail : Bytes) (now : Nat) :
    Conserves H e h.holds (outgoing h hail now) holds fun c => c.handle.id = h.id ∧ c.Tidy :=
  create_books h true _ now

theorem incoming_books (h : Handle) (hail : Bytes) (now : Nat) :
    Conserves H e h.holds (incoming h hail now) holds fun c => c.handle.id = h.id ∧ c.Tidy := by
  unfold incoming
  refine .bind settings fun _ _ => ?_
  dsimp only
  split
  · exact .bind (emit _) fun _ _ => create_books { h with remoteHail := hail } false _ now
  · exact create_books { h with remoteHail := hail } false _ now

end Connection
end ReliableUdp
