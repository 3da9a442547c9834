import Mathlib.Logic.Function.Basic
import Mathlib.Data.List.GetD
import Mathlib.Data.List.InsertIdx
import Mathlib.Data.List.Nodup
import ReliableUdp.Engine.SendWindow
import ReliableUdp.Proofs.SeqWindow

/-!
# Send numbers as residues of assignment indices

A `Numbering` follows the window's moves with unbounded indices. Along every run the stored
numbers are residues of increasing indices (`Numbered.run`), and the distance back to a stored
number counts the numbers given out since, up to half the space, not bounded by the window.
-/

namespace ReliableUdp

inductive WindowOp where
  | send (m : Queued)
  | resend (now : Nat) (r : ResendSchedule) (rtt : Nat)
  | ack (seq : Seq) (raw : Nat)
  | clear

namespace SendWindow

def keep (w : SendWindow) (m : Queued) (seq : Option Seq) (t : Nat) : SendWindow :=
  match seq, m.kind.slot with
  | some s, .ok raw =>
    if m.kind.isReliable then
      { w with
        earliest := some (minOpt w.earliest t)
        stored := w.stored.setIfInBounds raw
          (w.storedOf raw ++ [{ msg := m, seq := s, sends := 1, nextResend := t }]) }
    else w
  | _, _ => w

/-- One change a connection makes to its send window. A send needs room in its kind's
window, and keeps a reliable message for a resend at some instant. -/
inductive Move : SendWindow → WindowOp → SendWindow → Prop
  | send {w w₁ : SendWindow} {m : Queued} {seq : Option Seq}
      (room : w.isFull m.kind = .ok false) (assign : w.assign m.kind = .ok (seq, w₁)) (t : Nat) :
      Move w (.send m) (w₁.keep m seq t)
  | resend {w w' : SendWindow} {now rtt : Nat} {r : ResendSchedule} {pass : ResendPass}
      (h : w.resendDue now r rtt = .ok (pass, w')) : Move w (.resend now r rtt) w'
  | ack (w : SendWindow) (seq : Seq) (raw : Nat) : Move w (.ack seq raw) (w.ack seq raw).2
  | clear (w : SendWindow) : Move w .clear w.clear.2

def passes (w : SendWindow) (now : Nat) : Bool :=
  match w.earliest with
  | some t => t ≤ now
  | none => false

end SendWindow

def keepsAt (now : Nat) (r : ResendSchedule) (s : Stored) : Bool :=
  s.nextResend > now || s.sends < r.maxSends

/-- Per type number, how many sequence numbers were given out, and for each stored message, in
store order, the index of its number among them. -/
structure Numbering where
  assigned : Nat → Nat := fun _ => 0
  index : Nat → List Nat := fun _ => []

namespace Numbering

def step (g : Numbering) (w : SendWindow) : WindowOp → Numbering
  | .send m =>
    match m.kind.carriesSeq, m.kind.slot with
    | .ok true, .ok raw =>
      { assigned := Function.update g.assigned raw (g.assigned raw + 1)
        index := if m.kind.isReliable then
          Function.update g.index raw (g.index raw ++ [g.assigned raw]) else g.index }
    | _, _ => g
  | .resend now r _ =>
    if w.passes now then
      { g with index := fun raw =>
          (((g.index raw).zip (w.storedOf raw)).filter (keepsAt now r ·.2)).map (·.1) }
    else g
  | .ack seq raw =>
    if raw < Kind.count then
      match ((g.index raw).map Seq.ofNat).findIdx? (· == seq) with
      | some i => { g with index := Function.update g.index raw ((g.index raw).eraseIdx i) }
      | none => g
    else g
  | .clear => { g with index := fun _ => [] }

end Numbering

namespace SendWindow

inductive Run : SendWindow → Numbering → List WindowOp → SendWindow → Numbering → Prop
  | nil (w : SendWindow) (g : Numbering) : Run w g [] w g
  | cons {w w₁ w₂ : SendWindow} {g g₂ : Numbering} {op : WindowOp} {ops : List WindowOp} :
      Move w op w₁ → Run w₁ (g.step w op) ops w₂ g₂ → Run w g (op :: ops) w₂ g₂

/-- The send window's numbers are the numbering's indices folded into the sequence space. -/
structure Numbered (w : SendWindow) (g : Numbering) : Prop where
  nextSeq_size : w.nextSeq.size = Kind.count
  stored_size : w.stored.size = Kind.count
  next : ∀ r < Kind.count, w.nextSeq.getD r default = Seq.ofNat (g.assigned r)
  numbers : ∀ r, (w.storedOf r).map (·.seq) = (g.index r).map Seq.ofNat
  increasing : ∀ r, (g.index r).Pairwise (· < ·)
  below : ∀ r, ∀ i ∈ g.index r, i < g.assigned r
  room : ∀ r, (w.storedOf r).length ≤ w.window

/-! ## The window's entries -/

variable {w : SendWindow} {r raw : Nat}

theorem getD_setIfInBounds_self {α : Type} {a : Array α} {i : Nat} {x d : α} (h : i < a.size) :
    (a.setIfInBounds i x).getD i d = x := by
  simp [Array.getElem?_setIfInBounds_self_of_lt h]

theorem getD_replicate_nil {α : Type} (n i : Nat) : (Array.replicate n ([] : List α)).getD i [] = [] := by
  simp only [Array.getD_eq_getD_getElem?, Array.getElem?_replicate]
  split <;> rfl

theorem getD_setIfInBounds_ne {α : Type} {a : Array α} {i j : Nat} {x d : α} (h : i ≠ j) :
    (a.setIfInBounds i x).getD j d = a.getD j d := by
  simp [Array.getElem?_setIfInBounds_ne h]

theorem store_eq_keep {m : Queued} {s : Seq} {now rtt : Nat} {rs : ResendSchedule}
    {w' : SendWindow} (h : w.store m s now rs rtt = .ok w') : ∃ t, w' = w.keep m (some s) t := by
  simp only [store, bind, Except.bind] at h
  cases hr : m.kind.isReliable
  · simp [hr, throw, throwThe, MonadExceptOf.throw] at h
  · simp only [hr, Bool.not_true, Bool.false_eq_true, if_false] at h
    split at h
    · cases h
    · split at h
      · cases h
      · rename_i t _
        split at h
        · cases h
        · rename_i raw hraw
          cases h
          exact ⟨t, by simp [keep, hraw, hr]⟩

theorem slot_lt {k : Kind} (h : k.slot = .ok raw) : raw < Kind.count := by
  simp only [Kind.slot, bind, Except.bind] at h
  split at h
  · cases h
  · split at h
    · cases h
      assumption
    · cases h

theorem assign_cases {k : Kind} {seq : Option Seq} {w₁ : SendWindow}
    (h : w.assign k = .ok (seq, w₁)) :
    (k.carriesSeq = .ok false ∧ seq = none ∧ w₁ = w) ∨
      ∃ raw, k.carriesSeq = .ok true ∧ k.slot = .ok raw ∧
        seq = some (w.nextSeq.getD raw default) ∧
        w₁ = { w with nextSeq := w.nextSeq.setIfInBounds raw (w.nextSeq.getD raw default).next } := by
  simp only [assign, bind, Except.bind] at h
  cases hc : k.carriesSeq with
  | error e => simp [hc] at h
  | ok b =>
    cases b
    · simp only [hc, Bool.false_eq_true, if_false, pure, Except.pure, Except.ok.injEq,
        Prod.mk.injEq] at h
      exact .inl ⟨rfl, h.1.symm, h.2.symm⟩
    · cases hs : k.slot with
      | error e => simp [hc, hs] at h
      | ok raw =>
        simp only [hc, hs, if_true, pure, Except.pure, Except.ok.injEq, Prod.mk.injEq] at h
        exact .inr ⟨raw, rfl, rfl, h.1.symm, h.2.symm⟩

theorem isFull_eq_false_iff {k : Kind} (hr : k.isReliable = true) (hs : k.slot = .ok raw) :
    w.isFull k = .ok false ↔ (w.storedOf raw).length < w.window := by
  simp only [isFull, hr, Bool.not_true, Bool.false_eq_true, if_false, hs, bind, Except.bind,
    pure, Except.pure, Except.ok.injEq, decide_eq_false_iff_not]
  omega

theorem window_ack (seq : Seq) (raw : Nat) : (w.ack seq raw).2.window = w.window := by
  unfold SendWindow.ack
  dsimp only
  split
  · rfl
  · split
    · split <;> rfl
    · rfl

theorem stored_ack (seq : Seq) (raw : Nat) : (w.ack seq raw).2.stored =
    if raw < Kind.count then
      match (w.storedOf raw).findIdx? (·.seq == seq) with
      | some i => w.stored.setIfInBounds raw ((w.storedOf raw).eraseIdx i)
      | none => w.stored
    else w.stored := by
  unfold SendWindow.ack
  by_cases h : raw < Kind.count
  · simp only [show ¬ raw ≥ Kind.count by omega, if_false, h, if_true]
    cases (w.storedOf raw).findIdx? (·.seq == seq) with
    | none => rfl
    | some i =>
      dsimp only
      split <;> rfl
  · simp only [show raw ≥ Kind.count by omega, if_true, h, if_false]

@[simp] theorem keep_none {m : Queued} {t : Nat} : w.keep m none t = w := rfl

@[simp] theorem nextSeq_keep {m : Queued} {seq : Option Seq} {t : Nat} :
    (w.keep m seq t).nextSeq = w.nextSeq := by
  unfold keep
  split
  · split <;> rfl
  · rfl

@[simp] theorem window_keep {m : Queued} {seq : Option Seq} {t : Nat} :
    (w.keep m seq t).window = w.window := by
  unfold keep
  split
  · split <;> rfl
  · rfl

/-! ## Resend passes -/

theorem visit_kept {now rtt : Nat} {rs : ResendSchedule} {kept : List Stored} {pass : ResendPass}
    {e : Option Nat} {s : Stored} {acc : List Stored × ResendPass × Option Nat}
    (h : visit now rs rtt (kept, pass, e) s = .ok acc) :
    acc.1.map (·.seq) = kept.map (·.seq) ++ if keepsAt now rs s then [s.seq] else [] := by
  simp only [visit] at h
  by_cases h1 : s.nextResend > now
  · simp only [h1, if_true, pure, Except.pure, Except.ok.injEq] at h
    subst h
    simp [keepsAt, h1]
  · by_cases h2 : s.sends ≥ rs.maxSends
    · simp only [h1, h2, if_true, if_false, pure, Except.pure, Except.ok.injEq] at h
      subst h
      have : keepsAt now rs s = false := by simp [keepsAt]; omega
      simp [this]
    · simp only [h1, h2, if_false, bind, Except.bind] at h
      split at h
      · cases h
      · split at h
        · cases h
        · simp only [pure, Except.pure, Except.ok.injEq] at h
          subst h
          have : keepsAt now rs s = true := by simp [keepsAt]; omega
          simp [this]

theorem foldlM_visit_kept {now rtt : Nat} {rs : ResendSchedule} (l : List Stored) :
    ∀ {kept : List Stored} {pass : ResendPass} {e : Option Nat}
      {acc : List Stored × ResendPass × Option Nat},
      l.foldlM (visit now rs rtt) (kept, pass, e) = .ok acc →
      acc.1.map (·.seq) = kept.map (·.seq) ++ (l.filter (keepsAt now rs)).map (·.seq) := by
  induction l with
  | nil =>
    intro kept pass e acc h
    cases h
    simp
  | cons s l ih =>
    intro kept pass e acc h
    simp only [List.foldlM_cons, bind, Except.bind] at h
    split at h
    · cases h
    · rename_i acc₁ h₁
      obtain ⟨k₁, p₁, e₁⟩ := acc₁
      rw [ih h, visit_kept h₁, List.filter_cons]
      split <;> simp_all

theorem foldlM_lists {β : Type}
    {F : Array (List Stored) × β → List Stored → Except Crash (Array (List Stored) × β)}
    {f : List Stored → List Seq}
    (hF : ∀ acc lst acc', F acc lst = .ok acc' →
      acc'.1.toList.map (·.map (·.seq)) = acc.1.toList.map (·.map (·.seq)) ++ [f lst]) :
    ∀ (L : List (List Stored)) (acc acc' : Array (List Stored) × β), L.foldlM F acc = .ok acc' →
      acc'.1.toList.map (·.map (·.seq)) = acc.1.toList.map (·.map (·.seq)) ++ L.map f := by
  intro L
  induction L with
  | nil =>
    intro acc acc' h
    cases h
    simp
  | cons lst L ih =>
    intro acc acc' h
    simp only [List.foldlM_cons, bind, Except.bind] at h
    split at h
    · cases h
    · rename_i acc₁ h₁
      rw [ih acc₁ acc' h, hF acc lst acc₁ h₁]
      simp

theorem resendDue_stored {now rtt : Nat} {rs : ResendSchedule} {pass : ResendPass}
    {w' : SendWindow} (h : w.resendDue now rs rtt = .ok (pass, w')) :
    w'.window = w.window ∧ w'.nextSeq = w.nextSeq ∧ (w.passes now = false → w' = w) ∧
      (w.passes now = true → w'.stored.toList.map (·.map (·.seq)) =
        w.stored.toList.map fun l => (l.filter (keepsAt now rs)).map (·.seq)) := by
  simp only [resendDue] at h
  cases he : w.earliest with
  | none =>
    simp only [he, pure, Except.pure, Except.ok.injEq, Prod.mk.injEq] at h
    obtain ⟨-, rfl⟩ := h
    exact ⟨rfl, rfl, fun _ => rfl, fun hp => by simp [passes, he] at hp⟩
  | some t =>
    by_cases ht : t > now
    · simp only [he, ht, if_true, pure, Except.pure, Except.ok.injEq, Prod.mk.injEq] at h
      obtain ⟨-, rfl⟩ := h
      exact ⟨rfl, rfl, fun _ => rfl, fun hp => by simp [passes, he] at hp; omega⟩
    · simp only [he, ht, if_false, bind, Except.bind] at h
      split at h
      · cases h
      · rename_i acc hacc
        simp only [pure, Except.pure, Except.ok.injEq, Prod.mk.injEq] at h
        obtain ⟨-, rfl⟩ := h
        refine ⟨rfl, rfl, fun hp => by simp [passes, he] at hp; omega, fun _ => ?_⟩
        rw [← Array.foldlM_toList] at hacc
        -- each list of the array is read by the message fold, and its kept list pushed
        have hstep : ∀ (acc : Array (List Stored) × ResendPass × Option Nat) (lst : List Stored)
            (acc' : Array (List Stored) × ResendPass × Option Nat),
            (lst.foldlM (visit now rs rtt) ([], acc.2.1, acc.2.2) >>= fun k =>
              pure (acc.1.push k.1, k.2.1, k.2.2)) = .ok acc' →
            acc'.1.toList.map (·.map (·.seq)) = acc.1.toList.map (·.map (·.seq)) ++
              [(lst.filter (keepsAt now rs)).map (·.seq)] := by
          intro acc lst acc' hF
          simp only [bind, Except.bind] at hF
          split at hF
          · cases hF
          · rename_i k hk
            simp only [pure, Except.pure, Except.ok.injEq] at hF
            subst hF
            simp [foldlM_visit_kept lst hk]
        simpa using foldlM_lists hstep _ _ _ hacc

theorem storedOf_map_seq {w' : SendWindow} {f : List Stored → List Seq} (hf : f [] = [])
    (h : w'.stored.toList.map (·.map (·.seq)) = w.stored.toList.map f) (raw : Nat) :
    (w'.storedOf raw).map (·.seq) = f (w.storedOf raw) := by
  have h' := congrArg (fun l => l[raw]?) h
  simp only [List.getElem?_map, Array.getElem?_toList] at h'
  simp only [storedOf, Array.getD_eq_getD_getElem?]
  cases h₁ : w'.stored[raw]? <;> cases h₂ : w.stored[raw]? <;> simp_all

theorem map_ofNat_zip_filter {p : Stored → Bool} :
    ∀ {is : List Nat} {ss : List Stored}, is.map Seq.ofNat = ss.map (·.seq) →
      (((is.zip ss).filter (p ·.2)).map (·.1)).map Seq.ofNat = (ss.filter p).map (·.seq)
  | [], [], _ => rfl
  | i :: is, s :: ss, h => by
    simp only [List.map_cons, List.cons.injEq] at h
    simp only [List.zip_cons_cons, List.filter_cons]
    split <;> simp [map_ofNat_zip_filter h.2, h.1]
  | [], _ :: _, h => by simp at h
  | _ :: _, [], h => by simp at h

theorem zip_filter_sublist {p : Stored → Bool} {is : List Nat} {ss : List Stored}
    (h : is.length ≤ ss.length) : (((is.zip ss).filter (p ·.2)).map (·.1)).Sublist is := by
  have hs : (((is.zip ss).filter (fun x => p x.2)).map Prod.fst).Sublist ((is.zip ss).map Prod.fst) :=
    List.filter_sublist.map Prod.fst
  rwa [List.map_fst_zip h] at hs

/-! ## One move -/

namespace Numbered

variable {g : Numbering} {m : Queued}

theorem send_unnumbered (h : Numbered w g) (hc : m.kind.carriesSeq = .ok false) (t : Nat) :
    Numbered (w.keep m none t) (g.step w (.send m)) := by
  simp only [keep_none, Numbering.step, hc]
  exact h

theorem send_numbered (h : Numbered w g) (hroom : w.isFull m.kind = .ok false)
    (hc : m.kind.carriesSeq = .ok true) (hs : m.kind.slot = .ok raw) (t : Nat) :
    Numbered (({ w with nextSeq := w.nextSeq.setIfInBounds raw (w.nextSeq.getD raw default).next } :
        SendWindow).keep m (some (w.nextSeq.getD raw default)) t) (g.step w (.send m)) := by
  have hlt : raw < Kind.count := slot_lt hs
  have hns : raw < w.nextSeq.size := h.nextSeq_size ▸ hlt
  have hss : raw < w.stored.size := h.stored_size ▸ hlt
  have hs0 : w.nextSeq.getD raw default = Seq.ofNat (g.assigned raw) := h.next raw hlt
  have hnext : ∀ r < Kind.count, (w.nextSeq.setIfInBounds raw (w.nextSeq.getD raw default).next).getD
      r default = Seq.ofNat (Function.update g.assigned raw (g.assigned raw + 1) r) := by
    intro r hr
    by_cases hr' : r = raw
    · subst hr'
      rw [getD_setIfInBounds_self hns, hs0, Seq.ofNat_next, Function.update_self]
    · rw [getD_setIfInBounds_ne (Ne.symm hr'), Function.update_of_ne hr']
      exact h.next r hr
  have hbelow : ∀ r, ∀ i ∈ g.index r, i < Function.update g.assigned raw (g.assigned raw + 1) r := by
    intro r i hi
    have := h.below r i hi
    by_cases hr' : r = raw
    · subst hr'
      rw [Function.update_self]
      omega
    · rw [Function.update_of_ne hr']
      exact this
  cases hrel : m.kind.isReliable
  · -- numbered but not kept
    simp only [keep, hs, hrel, Bool.false_eq_true, if_false, Numbering.step, hc]
    exact ⟨by simp [h.nextSeq_size], h.stored_size, hnext, h.numbers, h.increasing, hbelow, h.room⟩
  · -- numbered and kept, with the index the count had
    have hfull := (isFull_eq_false_iff hrel hs).1 hroom
    simp only [keep, hs, hrel, if_true, Numbering.step, hc]
    refine ⟨by simp [h.nextSeq_size], by simp [h.stored_size], hnext, fun r => ?_, fun r => ?_,
      fun r i hi => ?_, fun r => ?_⟩ <;> dsimp only at *
    · by_cases hr' : r = raw
      · subst hr'
        have hn := h.numbers r
        simp only [storedOf] at hn ⊢
        rw [getD_setIfInBounds_self hss, Function.update_self, List.map_append, List.map_append,
          hn, hs0]
        rfl
      · have hn := h.numbers r
        simp only [storedOf] at hn ⊢
        rw [getD_setIfInBounds_ne (Ne.symm hr'), Function.update_of_ne hr']
        exact hn
    · by_cases hr' : r = raw
      · subst hr'
        rw [Function.update_self, List.pairwise_append]
        exact ⟨h.increasing r, List.pairwise_singleton _ _, fun i hi j hj => by
          rw [List.mem_singleton.1 hj]
          exact h.below r i hi⟩
      · rw [Function.update_of_ne hr']
        exact h.increasing r
    · by_cases hr' : r = raw
      · subst hr'
        rw [Function.update_self] at hi ⊢
        rcases List.mem_append.1 hi with hi | hi
        · have := h.below r i hi
          omega
        · rw [List.mem_singleton.1 hi]
          omega
      · rw [Function.update_of_ne hr'] at hi
        exact hbelow r i hi
    · by_cases hr' : r = raw
      · subst hr'
        simp only [storedOf] at hfull ⊢
        rw [getD_setIfInBounds_self hss, List.length_append, List.length_singleton]
        exact hfull
      · have hroom' := h.room r
        simp only [storedOf] at hroom' ⊢
        rw [getD_setIfInBounds_ne (Ne.symm hr')]
        exact hroom'

theorem send (h : Numbered w g) {seq : Option Seq} {w₁ : SendWindow}
    (hroom : w.isFull m.kind = .ok false) (hassign : w.assign m.kind = .ok (seq, w₁)) (t : Nat) :
    Numbered (w₁.keep m seq t) (g.step w (.send m)) := by
  rcases assign_cases hassign with ⟨hc, rfl, rfl⟩ | ⟨raw, hc, hs, rfl, rfl⟩
  · exact h.send_unnumbered hc t
  · exact h.send_numbered hroom hc hs t

theorem resend (h : Numbered w g) {now rtt : Nat} {rs : ResendSchedule} {pass : ResendPass}
    {w' : SendWindow} (hr : w.resendDue now rs rtt = .ok (pass, w')) :
    Numbered w' (g.step w (.resend now rs rtt)) := by
  obtain ⟨hwin, hnext, hsame, hpass⟩ := resendDue_stored hr
  cases hp : w.passes now
  · rw [hsame hp]
    simp only [Numbering.step, hp, Bool.false_eq_true, if_false]
    exact h
  · have hl := hpass hp
    have hseqs : ∀ r, (w'.storedOf r).map (·.seq) =
        ((w.storedOf r).filter (keepsAt now rs)).map (·.seq) := storedOf_map_seq rfl hl
    have hlen : ∀ r, (g.index r).length ≤ (w.storedOf r).length := fun r => by
      have := congrArg List.length (h.numbers r)
      simp only [List.length_map] at this
      omega
    simp only [Numbering.step, hp, if_true]
    refine ⟨hnext ▸ h.nextSeq_size, ?_, fun r hr => hnext ▸ h.next r hr, fun r => ?_, fun r => ?_,
      fun r i hi => ?_, fun r => ?_⟩
    · simpa [h.stored_size] using congrArg List.length hl
    · rw [hseqs r]
      exact (map_ofNat_zip_filter (h.numbers r).symm).symm
    · exact (h.increasing r).sublist (zip_filter_sublist (hlen r))
    · exact h.below r i ((zip_filter_sublist (hlen r)).subset hi)
    · have := congrArg List.length (hseqs r)
      simp only [List.length_map] at this
      rw [this, hwin]
      exact Nat.le_trans (List.length_filter_le _ _) (h.room r)

theorem earliest (h : Numbered w g) (e : Option Nat) : Numbered { w with earliest := e } g :=
  ⟨h.nextSeq_size, h.stored_size, h.next, h.numbers, h.increasing, h.below, h.room⟩

theorem ack (h : Numbered w g) (seq : Seq) (raw : Nat) :
    Numbered (w.ack seq raw).2 (g.step w (.ack seq raw)) := by
  have hfind : (w.storedOf raw).findIdx? (·.seq == seq) =
      ((g.index raw).map Seq.ofNat).findIdx? (· == seq) := by
    rw [← h.numbers raw, List.findIdx?_map]
    rfl
  unfold SendWindow.ack
  by_cases hge : raw ≥ Kind.count
  · simp only [hge, if_true, Numbering.step, show ¬ raw < Kind.count by omega, if_false]
    exact h
  · simp only [hge, if_false, Numbering.step, show raw < Kind.count by omega, if_true]
    split
    · rename_i i hw
      rw [hfind] at hw
      simp only [hw]
      have hss : raw < w.stored.size := h.stored_size ▸ (show raw < Kind.count by omega)
      have h' : Numbered { w with stored := w.stored.setIfInBounds raw ((w.storedOf raw).eraseIdx i) }
          { g with index := Function.update g.index raw ((g.index raw).eraseIdx i) } := by
        refine ⟨h.nextSeq_size, by simp [h.stored_size], h.next, fun r => ?_, fun r => ?_,
          fun r j hj => ?_, fun r => ?_⟩ <;> dsimp only at *
        · by_cases hr : r = raw
          · subst hr
            simp only [storedOf, getD_setIfInBounds_self hss, Function.update_self]
            rw [← List.eraseIdx_map, ← List.eraseIdx_map]
            exact congrArg (·.eraseIdx i) (h.numbers r)
          · simp only [storedOf, getD_setIfInBounds_ne (Ne.symm hr), Function.update_of_ne hr]
            exact h.numbers r
        · by_cases hr : r = raw
          · subst hr
            rw [Function.update_self]
            exact (h.increasing r).sublist (List.eraseIdx_sublist _ _)
          · rw [Function.update_of_ne hr]
            exact h.increasing r
        · by_cases hr : r = raw
          · subst hr
            rw [Function.update_self] at hj
            exact h.below r j (List.mem_of_mem_eraseIdx hj)
          · rw [Function.update_of_ne hr] at hj
            exact h.below r j hj
        · by_cases hr : r = raw
          · subst hr
            simp only [storedOf, getD_setIfInBounds_self hss]
            exact Nat.le_trans (List.length_eraseIdx_le _ _) (h.room r)
          · simp only [storedOf, getD_setIfInBounds_ne (Ne.symm hr)]
            exact h.room r
      split
      · exact h'.earliest none
      · exact h'
    · rename_i hw
      rw [hfind] at hw
      simp only [hw]
      exact h

theorem clear (h : Numbered w g) : Numbered w.clear.2 (g.step w .clear) where
  nextSeq_size := h.nextSeq_size
  stored_size := by simp [SendWindow.clear]
  next := h.next
  numbers r := by simp only [SendWindow.clear, storedOf, getD_replicate_nil, Numbering.step, List.map_nil]
  increasing r := by simp [Numbering.step]
  below r i hi := by simp [Numbering.step] at hi
  room r := by simp only [SendWindow.clear, storedOf, getD_replicate_nil, List.length_nil]; omega

theorem move (h : Numbered w g) {op : WindowOp} {w' : SendWindow} (hm : Move w op w') :
    Numbered w' (g.step w op) := by
  cases hm with
  | send room assign t => exact h.send room assign t
  | resend hr => exact h.resend hr
  | ack => exact h.ack _ _
  | clear => exact h.clear

theorem run (h : Numbered w g) {ops : List WindowOp} {w' : SendWindow} {g' : Numbering}
    (hr : Run w g ops w' g') : Numbered w' g' := by
  -- each move keeps the window numbered by the numbering that follows it
  induction hr with
  | nil => exact h
  | cons hm _ ih => exact ih (h.move hm)

theorem fresh (n : Nat) : Numbered { window := n } {} where
  nextSeq_size := by simp [Kind.count]
  stored_size := by simp [Kind.count]
  next r hr := by simp [Array.getD_eq_getD_getElem?, hr]; rfl
  numbers r := by simp only [storedOf, getD_replicate_nil, List.map_nil]
  increasing r := List.Pairwise.nil
  below r i hi := by simp at hi
  room r := by simp only [storedOf, getD_replicate_nil, List.length_nil]; omega

/-- Within half the space of the count, the distance from the next number back to a stored
number is how many numbers were given out since. -/
theorem distance_stored (h : Numbered w g) (hr : r < Kind.count) {i : Nat} (hi : i ∈ g.index r)
    (hhalf : g.assigned r < i + seqSpace / 2) :
    Seq.distance (w.nextSeq.getD r default) (Seq.ofNat i) = ((g.assigned r - i : Nat) : Int) := by
  have hlt := h.below r i hi
  rw [h.next r hr, Seq.distance_ofNat (by omega) hhalf]
  omega

theorem nodup_stored (h : Numbered w g) (hspan : ∀ i ∈ g.index r, g.assigned r ≤ i + seqSpace) :
    ((w.storedOf r).map (·.seq)).Nodup := by
  rw [h.numbers r]
  refine List.Nodup.map_on (fun x hx y hy hxy => ?_) ((h.increasing r).imp Nat.ne_of_lt)
  have hx₁ := h.below r x hx
  have hy₁ := h.below r y hy
  have hx₂ := hspan x hx
  have hy₂ := hspan y hy
  exact (Seq.ofNat_eq_ofNat_iff (by omega) (by omega)).1 hxy

end Numbered

/-! ## Runs -/

theorem Move.window {w w' : SendWindow} {op : WindowOp} (hm : Move w op w') :
    w'.window = w.window := by
  cases hm with
  | send room assign t =>
    rename_i w₁ _ _
    rcases assign_cases assign with ⟨-, rfl, rfl⟩ | ⟨raw, -, -, rfl, rfl⟩ <;> simp
  | resend hr => exact (resendDue_stored hr).1
  | ack => exact window_ack _ _
  | clear => rfl

theorem Run.window {w w' : SendWindow} {g g' : Numbering} {ops : List WindowOp}
    (hr : Run w g ops w' g') : w'.window = w.window := by
  induction hr with
  | nil => rfl
  | cons hm _ ih => exact ih.trans hm.window

theorem Run.append {w w₁ w₂ : SendWindow} {g g₁ g₂ : Numbering} {ops ops' : List WindowOp}
    (h₁ : Run w g ops w₁ g₁) (h₂ : Run w₁ g₁ ops' w₂ g₂) : Run w g (ops ++ ops') w₂ g₂ := by
  induction h₁ with
  | nil => exact h₂
  | cons hm _ ih => exact .cons hm (ih h₂)

def Reaches (w w' : SendWindow) : Prop := ∀ g, ∃ ops g', Run w g ops w' g'

theorem Reaches.refl (w : SendWindow) : Reaches w w := fun g => ⟨[], g, .nil w g⟩

theorem Reaches.trans {w w₁ w₂ : SendWindow} (h₁ : Reaches w w₁) (h₂ : Reaches w₁ w₂) :
    Reaches w w₂ := fun g => by
  obtain ⟨ops, g₁, r₁⟩ := h₁ g
  obtain ⟨ops', g₂, r₂⟩ := h₂ g₁
  exact ⟨ops ++ ops', g₂, r₁.append r₂⟩

theorem Move.reaches {w w' : SendWindow} {op : WindowOp} (hm : Move w op w') : Reaches w w' :=
  fun g => ⟨[op], g.step w op, .cons hm (.nil w' _)⟩

def FromEmpty (w : SendWindow) : Prop := ∃ ops g, Run { window := w.window } {} ops w g

theorem fromEmpty_of_eq {w : SendWindow} (h : w = { window := w.window }) : FromEmpty w :=
  ⟨[], {}, by rw [h]; exact .nil _ _⟩

theorem FromEmpty.reaches {w w' : SendWindow} (h : FromEmpty w) (hr : Reaches w w') :
    FromEmpty w' := by
  obtain ⟨ops, g, r₁⟩ := h
  obtain ⟨ops', g', r₂⟩ := hr g
  refine ⟨ops ++ ops', g', ?_⟩
  rw [r₂.window]
  exact r₁.append r₂

end SendWindow

end ReliableUdp
