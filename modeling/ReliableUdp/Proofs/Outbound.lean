import ReliableUdp.Connection.Core
import ReliableUdp.Proofs.ReadBack
import ReliableUdp.Proofs.SendNumbering

/-!
# Messages waiting to go out

A connection is `Sound` when every queued and every kept message can be sent
(`Queued.Sendable`), the kept ones reliable, and its next fragment group fits 16 bits. The
headers it writes for such messages are well formed, so every message written reads back.
-/

namespace ReliableUdp

/-- A message the application may queue, or a fragment of one. -/
def Queued.Sendable (q : Queued) : Prop :=
  (∃ m ch, q.kind = .user m ch ∧ ch < m.channels) ∧ ∀ t ∈ q.tag, t.WellFormed

namespace Kind

theorem hasSeq_of_isReliable {k : Kind} (h : k.isReliable = true) : k.hasSeq = true := by
  cases k with
  | control | unconnected => cases h
  | user m ch =>
    cases m <;> simp_all [isReliable, Delivery.isReliable, hasSeq, toRaw, Delivery.base] <;> omega

theorem carriesSeq_eq {k : Kind} (h : k.toRaw < 256) : k.carriesSeq = .ok k.hasSeq := by
  simp [carriesSeq, byte, h, hasSeq, bind, Except.bind, pure, Except.pure]

theorem toRaw_user_lt {m : Delivery} {ch : Nat} (h : ch < m.channels) : (user m ch).toRaw < 100 := by
  cases m <;> simp_all [toRaw, Delivery.base, Delivery.channels] <;> omega

end Kind

theorem Queued.Sendable.toRaw_lt {q : Queued} (hq : q.Sendable) : q.kind.toRaw < 100 := by
  obtain ⟨⟨m, ch, hk, hch⟩, -⟩ := hq
  rw [hk]
  exact Kind.toRaw_user_lt hch

namespace Header

theorem ofControl_eq {k : Control} {len : Nat} {h : Header} (hc : ofControl k len = .ok h) :
    h = { kind := .control, control := some k, payloadLen := len } ∧ len ≤ maxPayload := by
  unfold ofControl at hc
  split at hc
  · cases hc
    exact ⟨rfl, by assumption⟩
  · cases hc

theorem ofControl_wellFormed {k : Control} {p : Bytes} {h : Header}
    (hc : ofControl k p.length = .ok h) : MessageWellFormed (h, p) := by
  obtain ⟨rfl, hlen⟩ := ofControl_eq hc
  exact ⟨⟨trivial, by simp, by simp [Kind.hasSeq, Kind.toRaw], hlen, by simp⟩, rfl⟩

theorem ofUser_eq {k : Kind} {seq : Option Seq} {len : Nat} {tag : Option FragmentTag} {h : Header}
    (hu : ofUser k seq len tag = .ok h) :
    h = { kind := k, seq, payloadLen := len, fragment := tag } ∧ len ≤ maxPayload := by
  unfold ofUser at hu
  split at hu
  · cases hu
    exact ⟨rfl, by assumption⟩
  · cases hu

theorem ofUser_wellFormed {q : Queued} {seq : Option Seq} {h : Header} (hq : q.Sendable)
    (hseq : seq.isSome = q.kind.hasSeq) (hu : ofUser q.kind seq q.data.length q.tag = .ok h) :
    MessageWellFormed (h, q.data) := by
  obtain ⟨rfl, hlen⟩ := ofUser_eq hu
  obtain ⟨⟨m, ch, hk, hch⟩, htag⟩ := hq
  refine ⟨⟨?_, ?_, by simp [hseq], hlen, htag⟩, rfl⟩
  · rw [hk]
    exact hch
  · simp [hk]

end Header

namespace SendWindow

variable {w w' : SendWindow} {P : Queued → Prop}

def Holds (P : Queued → Prop) (w : SendWindow) : Prop := ∀ l ∈ w.stored, ∀ s ∈ l, P s.msg

theorem Holds.storedOf (hw : w.Holds P) (raw : Nat) : ∀ s ∈ w.storedOf raw, P s.msg := by
  intro s hs
  unfold SendWindow.storedOf at hs
  rw [Array.getD_eq_getD_getElem?] at hs
  cases hl : w.stored[raw]? with
  | none => simp [hl] at hs
  | some l =>
    rw [hl, Option.getD_some] at hs
    exact hw l (Array.mem_of_getElem? hl) s hs

theorem Holds.setIfInBounds (hw : w.Holds P) {raw : Nat} {l : List Stored} (hl : ∀ s ∈ l, P s.msg) :
    Holds P { w with stored := w.stored.setIfInBounds raw l } := by
  intro l' hl'
  rcases Array.mem_or_eq_of_mem_setIfInBounds hl' with h | rfl
  · exact hw l' h
  · exact hl

theorem Holds.keep (hw : w.Holds P) {m : Queued} (hm : P m) (seq : Option Seq) (t : Nat) :
    (w.keep m seq t).Holds P := by
  unfold SendWindow.keep
  split
  · split
    · intro l hl
      rcases Array.mem_or_eq_of_mem_setIfInBounds hl with h | rfl
      · exact hw l h
      · intro s hs
        rcases List.mem_append.1 hs with hs | hs
        · exact hw.storedOf _ s hs
        · rw [List.mem_singleton.1 hs]
          exact hm
    · exact hw
  · exact hw

theorem Holds.ack (hw : w.Holds P) (seq : Seq) (raw : Nat) : (w.ack seq raw).2.Holds P := by
  intro l hl
  rw [stored_ack] at hl
  split at hl
  · split at hl
    · rcases Array.mem_or_eq_of_mem_setIfInBounds hl with h | rfl
      · exact hw l h
      · exact fun s hs => hw.storedOf raw s (List.mem_of_mem_eraseIdx hs)
    · exact hw l hl
  · exact hw l hl

theorem holds_clear (w : SendWindow) : w.clear.2.Holds P := by
  intro l hl s hs
  obtain ⟨-, rfl⟩ := Array.mem_replicate.1 hl
  cases hs

theorem assign_isSome {q : Queued} (hq : q.Sendable) {seq : Option Seq}
    (h : w.assign q.kind = .ok (seq, w')) : seq.isSome = q.kind.hasSeq := by
  have hc := Kind.carriesSeq_eq (Nat.lt_trans hq.toRaw_lt (by decide))
  rcases assign_cases h with ⟨hf, rfl, -⟩ | ⟨raw, ht, -, rfl, -⟩
  · rw [hc, Except.ok.injEq] at hf
    rw [hf]
    rfl
  · rw [hc, Except.ok.injEq] at ht
    rw [ht]
    rfl

theorem Holds.assign (hw : w.Holds P) {k : Kind} {seq : Option Seq}
    (h : w.assign k = .ok (seq, w')) : w'.Holds P := by
  rcases assign_cases h with ⟨-, -, rfl⟩ | ⟨raw, -, -, -, rfl⟩
  · exact hw
  · exact hw

/-! ## Resend passes keep and resend only what was kept -/

theorem visit_holds {now rtt : Nat} {rs : ResendSchedule} {kept : List Stored} {pass : ResendPass}
    {e : Option Nat} {s : Stored} {acc : List Stored × ResendPass × Option Nat}
    (hs : P s.msg) (hk : ∀ x ∈ kept, P x.msg) (hp : ∀ x ∈ pass.resent, P x.1)
    (h : visit now rs rtt (kept, pass, e) s = .ok acc) :
    (∀ x ∈ acc.1, P x.msg) ∧ ∀ x ∈ acc.2.1.resent, P x.1 := by
  simp only [visit] at h
  split at h
  · cases h
    refine ⟨fun x hx => ?_, hp⟩
    rcases List.mem_append.1 hx with hx | hx
    · exact hk x hx
    · rw [List.mem_singleton.1 hx]
      exact hs
  · split at h
    · cases h
      exact ⟨hk, hp⟩
    · simp only [bind, Except.bind] at h
      split at h
      · cases h
      · split at h
        · cases h
        · cases h
          refine ⟨fun x hx => ?_, fun x hx => ?_⟩
          · rcases List.mem_append.1 hx with hx | hx
            · exact hk x hx
            · rw [List.mem_singleton.1 hx]
              exact hs
          · rcases List.mem_append.1 hx with hx | hx
            · exact hp x hx
            · rw [List.mem_singleton.1 hx]
              exact hs

theorem foldlM_visit_holds {now rtt : Nat} {rs : ResendSchedule} (l : List Stored)
    (hl : ∀ s ∈ l, P s.msg) :
    ∀ {kept : List Stored} {pass : ResendPass} {e : Option Nat}
      {acc : List Stored × ResendPass × Option Nat},
      (∀ x ∈ kept, P x.msg) → (∀ x ∈ pass.resent, P x.1) →
      l.foldlM (visit now rs rtt) (kept, pass, e) = .ok acc →
      (∀ x ∈ acc.1, P x.msg) ∧ ∀ x ∈ acc.2.1.resent, P x.1 := by
  induction l with
  | nil =>
    intro kept pass e acc hk hp h
    cases h
    exact ⟨hk, hp⟩
  | cons s l ih =>
    intro kept pass e acc hk hp h
    simp only [List.foldlM_cons, bind, Except.bind] at h
    split at h
    · cases h
    · rename_i acc₁ h₁
      obtain ⟨k₁, p₁, e₁⟩ := acc₁
      have h₁' := visit_holds (hl s (List.mem_cons_self)) hk hp h₁
      exact ih (fun x hx => hl x (List.mem_cons_of_mem _ hx)) h₁'.1 h₁'.2 h

theorem Holds.resendDue (hw : w.Holds P) {now rtt : Nat} {rs : ResendSchedule} {pass : ResendPass}
    (h : w.resendDue now rs rtt = .ok (pass, w')) : w'.Holds P ∧ ∀ x ∈ pass.resent, P x.1 := by
  simp only [SendWindow.resendDue] at h
  -- the pass either stops before the stored lists or folds over all of them
  have hstop : pass = {} → w' = w → w'.Holds P ∧ ∀ x ∈ pass.resent, P x.1 := by
    rintro rfl rfl
    exact ⟨hw, fun _ hx => by cases hx⟩
  cases he : w.earliest with
  | none =>
    simp only [he, pure, Except.pure, Except.ok.injEq, Prod.mk.injEq] at h
    exact hstop h.1.symm h.2.symm
  | some t =>
    by_cases ht : t > now
    · simp only [he, ht, if_true, pure, Except.pure, Except.ok.injEq, Prod.mk.injEq] at h
      exact hstop h.1.symm h.2.symm
    · simp only [he, ht, if_false, bind, Except.bind] at h
      split at h
      · cases h
      · rename_i acc hacc
        simp only [pure, Except.pure, Except.ok.injEq, Prod.mk.injEq] at h
        obtain ⟨rfl, rfl⟩ := h
        rw [← Array.foldlM_toList] at hacc
        -- the invariant of the fold over the stored lists: what is pushed and resent holds `P`
        have hfold : ∀ (L : List (List Stored)) (a a' : Array (List Stored) × ResendPass × Option Nat),
            (∀ l ∈ L, ∀ s ∈ l, P s.msg) → (∀ l ∈ a.1, ∀ s ∈ l, P s.msg) →
            (∀ x ∈ a.2.1.resent, P x.1) →
            L.foldlM (fun acc lst => do
              let r ← lst.foldlM (visit now rs rtt) ([], acc.2.1, acc.2.2)
              pure (acc.1.push r.1, r.2.1, r.2.2)) a = .ok a' →
            (∀ l ∈ a'.1, ∀ s ∈ l, P s.msg) ∧ ∀ x ∈ a'.2.1.resent, P x.1 := by
          intro L
          induction L with
          | nil =>
            intro a a' _ ha hp h
            cases h
            exact ⟨ha, hp⟩
          | cons lst L ih =>
            intro a a' hL ha hp h
            simp only [List.foldlM_cons, bind, Except.bind] at h
            split at h
            · cases h
            · rename_i r hr
              split at hr
              · cases hr
              · rename_i v hv
                cases hr
                have hv' := foldlM_visit_holds lst (hL lst List.mem_cons_self)
                  (fun _ hx => by cases hx) hp hv
                refine ih _ _ (fun l hl => hL l (List.mem_cons_of_mem _ hl)) ?_ hv'.2 h
                intro l hl
                rcases Array.mem_push.1 hl with hl | rfl
                · exact ha l hl
                · exact hv'.1
        exact hfold _ _ _ (fun l hl => hw l (Array.mem_toList_iff.1 hl))
          (fun _ hl => by simp at hl) (fun _ hx => by cases hx) hacc

end SendWindow

namespace Fragments

theorem ranges_wellFormed {len group c : Nat} {rs : List (FragmentTag × Nat × Nat)}
    (hg : group < 65536) (h : ranges len group c = .ok rs) : ∀ r ∈ rs, r.1.WellFormed := by
  simp only [ranges, bind, Except.bind] at h
  cases hn : count len c with
  | error e => simp [hn] at h
  | ok n =>
    simp only [hn] at h
    split at h
    · cases h
    · rename_i hmax
      cases h
      intro r hr
      obtain ⟨i, hi, rfl⟩ := List.mem_map.1 hr
      exact ⟨List.mem_range.1 hi, show n < 65536 by omega, hg⟩

theorem split_sendable {pool pool' : Pool} {m : Queued} {group c : Nat} {frags : List Queued}
    (hm : m.Sendable) (hg : group < 65536) (h : split pool m group c = .ok (frags, pool')) :
    ∀ f ∈ frags, f.Sendable := by
  simp only [split, bind, Except.bind] at h
  cases hr : ranges m.payload.data.length group c with
  | error e => simp [hr] at h
  | ok rs =>
    simp only [hr, pure, Except.pure, Except.ok.injEq, Prod.mk.injEq] at h
    obtain ⟨rfl, -⟩ := h
    intro f hf
    obtain ⟨r, hr', rfl⟩ := List.mem_map.1 hf
    refine ⟨hm.1, fun t ht => ?_⟩
    simp only [Queued.tag, Option.map_some, Option.mem_def, Option.some.injEq] at ht
    subst ht
    exact ranges_wellFormed hg hr r hr'

end Fragments

/-- The outbound messages of a connection can be sent and its next fragment group is a 16-bit
number. -/
structure Connection.Sound (c : Connection) : Prop where
  queued : ∀ q ∈ c.handle.outbound, q.Sendable
  stored : c.sendWindow.Holds fun q => q.Sendable ∧ q.kind.isReliable = true
  group : c.nextGroup < 65536

end ReliableUdp
