import ReliableUdp.Proofs.ReceiveCounters

/-!
# The receive window refines the unbounded counters

One arrival within half the space of its kind's position gets the specification's verdict and
deliveries (`Abstracts.receive`), and by induction so does every such run from a fresh window
(`receiveAll_refines`).
-/

namespace ReliableUdp

namespace Arrival

variable (a : Arrival)

theorem raw_lt : a.raw < Kind.count := by
  obtain ⟨m, c, hc, _⟩ := a
  cases m <;> simp only [Delivery.channels] at hc <;>
    simp only [raw, kind, Kind.toRaw, Delivery.base, Kind.count] <;> omega

theorem kind_byte : a.kind.byte = .ok a.raw := by
  have := a.raw_lt
  simp only [Kind.byte, raw, Kind.count] at this ⊢
  rw [if_pos (by omega)]

theorem hasSeq_eq : a.kind.hasSeq = true ↔ a.method ≠ .unreliable := by
  obtain ⟨m, c, hc, _⟩ := a
  cases m <;> simp only [Delivery.channels] at hc <;>
    simp [kind, Kind.hasSeq, Kind.toRaw, Delivery.base] <;> omega

theorem raw_eq_unorderedRaw : a.raw = unorderedRaw ↔ a.method = .reliableUnordered := by
  obtain ⟨m, c, hc, _⟩ := a
  cases m <;> simp only [Delivery.channels] at hc <;>
    simp [raw, kind, Kind.toRaw, Delivery.base, unorderedRaw] <;> omega

theorem raw_eq_orderedRaw {c' : Nat} (hc' : c' < 32) :
    a.raw = orderedRaw c' ↔ a.method = .reliableOrdered ∧ a.channel = c' := by
  obtain ⟨m, c, hc, _⟩ := a
  cases m <;> simp only [Delivery.channels] at hc <;>
    simp [raw, kind, Kind.toRaw, Delivery.base, orderedRaw] <;> omega

end Arrival

section Step

variable {σ : Ledger} {w : ReceiveWindow}

theorem Abstracts.queueAckIf (h : Abstracts σ w) (b : Bool) (s : Seq) (r now : Nat) :
    Abstracts σ (if b then w.queueAck s r now else w) := by
  cases b
  · exact h
  · exact h.queueAck s r now

theorem Abstracts.receive_unreliable (h : Abstracts σ w) {a : Arrival}
    (hm : a.method = .unreliable) :
    ∃ w', w.receive a.inbound a.time = .ok ((σ.step a).1.1, (σ.step a).1.2, w') ∧
      Abstracts (σ.step a).2 w' := by
  have hseq : ¬ (Kind.user a.method a.channel).hasSeq = true := fun he => a.hasSeq_eq.1 he hm
  rw [hm] at hseq
  refine ⟨w, ?_, ?_⟩
  · simp only [ReceiveWindow.receive, Arrival.inbound, Arrival.kind, hseq, Bool.false_eq_true,
      if_false, Ledger.step, Track.receive, hm]
  · simp only [Ledger.step, Track.receive, hm, Ledger.update_self]
    exact h

theorem Abstracts.receive_sequenced (h : Abstracts σ w)
    {a : Arrival} (hm : a.method = .unreliableSequenced ∨ a.method = .reliableSequenced)
    (ha : σ.InWindow a) :
    ∃ w', w.receive a.inbound a.time = .ok ((σ.step a).1.1, (σ.step a).1.2, w') ∧
      Abstracts (σ.step a).2 w' := by
  have hnu : a.method ≠ .unreliable := by rcases hm with hm | hm <;> simp [hm]
  have hlt := a.raw_lt
  have hwin := ha hnu
  have hf := h.folds a.raw hlt
  have hseq : (Kind.user a.method a.channel).hasSeq = true := a.hasSeq_eq.2 hnu
  have hbyte : (Kind.user a.method a.channel).byte = .ok a.raw := a.kind_byte
  have hge : ¬ a.raw ≥ Kind.count := by omega
  have hdist : (Seq.ofNat a.index).distance (w.expectedOf a.raw) =
      (a.index : Int) - (σ.track a.raw).pos := by
    rw [hf.expected]
    exact Seq.distance_ofNat hwin.1 hwin.2
  have hnr : a.raw ≠ unorderedRaw := fun he => by
    have := (a.raw_eq_unorderedRaw).1 he
    rcases hm with hm | hm <;> simp [hm] at this
  have hno : ∀ c < 32, a.raw ≠ orderedRaw c := fun c hc he => by
    have := ((a.raw_eq_orderedRaw hc).1 he).1
    rcases hm with hm | hm <;> simp [hm] at this
  rcases hm with hm | hm
  all_goals
    rw [hm] at hseq hbyte
    by_cases hi : a.index < (σ.track a.raw).pos
    · have hneg : (a.index : Int) - (σ.track a.raw).pos < 0 := by omega
      refine ⟨if a.method.isReliable then w.queueAck (Seq.ofNat a.index) a.raw a.time else w,
        ?_, ?_⟩
      · simp only [ReceiveWindow.receive, Arrival.inbound, Arrival.kind, hseq, if_true, hbyte,
          bind, Except.bind, hge, if_false, hm, Delivery.isReliable, Bool.false_eq_true,
          ReceiveWindow.expectedOf_queueAck, hdist, hneg, Ledger.step, Track.receive, hi]
      · simp only [Ledger.step, Track.receive, hm, hi, if_true, Ledger.update_self]
        exact h.queueAckIf _ _ _ _
    · have hnneg : ¬ (a.index : Int) - (σ.track a.raw).pos < 0 := by omega
      refine ⟨(if a.method.isReliable then w.queueAck (Seq.ofNat a.index) a.raw a.time
        else w).setExpected a.raw (Seq.ofNat (a.index + 1)), ?_, ?_⟩
      · simp only [ReceiveWindow.receive, Arrival.inbound, Arrival.kind, hseq, if_true, hbyte,
          bind, Except.bind, hge, if_false, hm, Delivery.isReliable, Bool.false_eq_true,
          ReceiveWindow.expectedOf_queueAck, hdist, hnneg, Ledger.step, Track.receive, hi]
        simp [Seq.ofNat_next]
      · simp only [Ledger.step, Track.receive, hm, hi, if_false]
        have h1 := h.queueAckIf a.method.isReliable (Seq.ofNat a.index) a.raw a.time
        rw [hm] at h1
        refine h1.update ?_ ?_ ⟨?_, fun he => absurd he hnr, fun c hc he => absurd he (hno c hc)⟩
          fun r' _ hr' => sameAt_setExpected hr'
        · simpa [ReceiveWindow.setExpected] using h1.expected_size
        · simpa [ReceiveWindow.setExpected] using h1.withheld_size
        · exact ReceiveWindow.expectedOf_setExpected_self (by rw [h1.expected_size]; exact hlt)

theorem Abstracts.receive_unordered (h : Abstracts σ w)
    {a : Arrival} (hm : a.method = .reliableUnordered) (ha : σ.InWindow a) :
    ∃ w', w.receive a.inbound a.time = .ok ((σ.step a).1.1, (σ.step a).1.2, w') ∧
      Abstracts (σ.step a).2 w' := by
  have hnu : a.method ≠ .unreliable := by simp [hm]
  have hlt := a.raw_lt
  have hwin := ha hnu
  have hf := h.folds a.raw hlt
  have hseq : (Kind.user a.method a.channel).hasSeq = true := a.hasSeq_eq.2 hnu
  have hbyte : (Kind.user a.method a.channel).byte = .ok a.raw := a.kind_byte
  have hge : ¬ a.raw ≥ Kind.count := by omega
  have hdist : (Seq.ofNat a.index).distance (w.expectedOf a.raw) =
      (a.index : Int) - (σ.track a.raw).pos := by
    rw [hf.expected]
    exact Seq.distance_ofNat hwin.1 hwin.2
  have hr : a.raw = unorderedRaw := a.raw_eq_unorderedRaw.2 hm
  obtain ⟨hearly, hnd, hahead⟩ := hf.early hr
  have h1 := h.queueAck (Seq.ofNat a.index) a.raw a.time
  rw [hm] at hseq hbyte
  rcases Nat.lt_trichotomy a.index (σ.track a.raw).pos with hi | hi | hi
  · have hneg : (a.index : Int) - (σ.track a.raw).pos < 0 := by omega
    refine ⟨w.queueAck (Seq.ofNat a.index) a.raw a.time, ?_, ?_⟩
    · simp only [ReceiveWindow.receive, Arrival.inbound, Arrival.kind, hseq, if_true, hbyte,
        bind, Except.bind, hge, if_false, hm, Delivery.isReliable,
        ReceiveWindow.expectedOf_queueAck, hdist, hneg, Ledger.step, Track.receive, hi]
      simp
    · simp only [Ledger.step, Track.receive, hm, hi, true_or, if_true, Ledger.update_self]
      exact h1
  · -- on time: the expected number moves past every early number that follows
    have hz : (a.index : Int) - (σ.track a.raw).pos = 0 := by omega
    have hi1 : ¬ a.index < (σ.track a.raw).pos := by omega
    have hi2 : ¬ (σ.track a.raw).pos < a.index := by omega
    have hnotin : a.index ∉ (σ.track a.raw).early := fun hx => by
      have := (hahead _ hx).1
      omega
    have hfold := skipEarly_fold (a.index + 1) ((σ.track a.raw).early.length + 1) hahead
      ⟨by omega, by simp only [seqSpace]; omega⟩
    obtain ⟨hle, hnd', hmem⟩ :=
      Track.skip_spec (a.index + 1) ((σ.track a.raw).early.length + 1) hnd
        (fun x hx => by have := (hahead x hx).1; omega) (by omega)
    refine ⟨{ (w.queueAck (Seq.ofNat a.index) a.raw a.time).setExpected a.raw
        (Seq.ofNat (Track.skip (σ.track a.raw).early (a.index + 1)
          ((σ.track a.raw).early.length + 1)).2) with
        early := (Track.skip (σ.track a.raw).early (a.index + 1)
          ((σ.track a.raw).early.length + 1)).1.map Seq.ofNat }, ?_, ?_⟩
    · simp only [ReceiveWindow.receive, Arrival.inbound, Arrival.kind, hseq, if_true, hbyte,
        bind, Except.bind, hge, if_false, hm, Delivery.isReliable,
        ReceiveWindow.expectedOf_queueAck, hdist, hz, ReceiveWindow.early_queueAck, hearly,
        Seq.ofNat_next, List.length_map, hfold, Ledger.step, Track.receive, hi1, hi2, hnotin]
      simp
    · simp only [Ledger.step, Track.receive, hm, hi1, hi2, hnotin, or_self, if_false]
      refine h1.update (by simpa [ReceiveWindow.setExpected] using h1.expected_size)
        (by simpa [ReceiveWindow.setExpected] using h1.withheld_size) ⟨?_, fun _ => ⟨rfl, hnd', ?_⟩,
          fun c hc he => absurd (hr ▸ he) (unorderedRaw_ne_orderedRaw c)⟩
        fun r' _ hr' => ⟨ReceiveWindow.expectedOf_setExpected_ne (Ne.symm hr'),
          fun he => absurd (he.trans hr.symm) hr', fun _ _ _ => rfl⟩
      · exact ReceiveWindow.expectedOf_setExpected_self (by rw [h1.expected_size]; exact hlt)
      · intro x hx
        have := (hahead x (hmem x hx).1).2
        refine ⟨(hmem x hx).2, ?_⟩
        dsimp only
        omega
  · -- ahead: a duplicate if remembered, else accepted and remembered
    have hpos : 0 < (a.index : Int) - (σ.track a.raw).pos := by omega
    have hneg : ¬ (a.index : Int) - (σ.track a.raw).pos < 0 := by omega
    have hi1 : ¬ a.index < (σ.track a.raw).pos := by omega
    have hnear : Near a.index (σ.track a.raw).early := fun x hx => by
      have := hahead x hx
      simp only [Track.Ahead, seqSpace] at this hwin ⊢
      omega
    have hc := contains_map_ofNat hnear
    by_cases hin : a.index ∈ (σ.track a.raw).early
    · refine ⟨w.queueAck (Seq.ofNat a.index) a.raw a.time, ?_, ?_⟩
      · simp only [ReceiveWindow.receive, Arrival.inbound, Arrival.kind, hseq, if_true, hbyte,
          bind, Except.bind, hge, if_false, hm, Delivery.isReliable,
          ReceiveWindow.expectedOf_queueAck, hdist, hneg, hpos, ReceiveWindow.early_queueAck,
          hearly, hc.2 hin, Ledger.step, Track.receive, hi1, hin]
        simp
      · simp only [Ledger.step, Track.receive, hm, hin, or_true, if_true, Ledger.update_self]
        exact h1
    · have hnc : ¬ (((σ.track a.raw).early.map Seq.ofNat).contains (Seq.ofNat a.index) = true) :=
        fun h => hin (hc.1 h)
      refine ⟨{ w.queueAck (Seq.ofNat a.index) a.raw a.time with
        early := (σ.track a.raw).early.map Seq.ofNat ++ [Seq.ofNat a.index] }, ?_, ?_⟩
      · simp only [ReceiveWindow.receive, Arrival.inbound, Arrival.kind, hseq, if_true, hbyte,
          bind, Except.bind, hge, if_false, hm, Delivery.isReliable,
          ReceiveWindow.expectedOf_queueAck, hdist, hneg, hpos, ReceiveWindow.early_queueAck,
          hearly, hnc, Ledger.step, Track.receive, hi1, hin, hi]
        simp
      · simp only [Ledger.step, Track.receive, hm, hi1, hin, hi, or_self, if_false, if_true]
        refine h1.update h1.expected_size h1.withheld_size ⟨(h1.folds a.raw hlt).expected,
          fun _ => ⟨by simp, List.nodup_append.2 ⟨hnd, by simp, fun x hx y hy => by
            rw [List.mem_singleton.1 hy]; exact fun he => hin (he ▸ hx)⟩, ?_⟩,
          fun c hc he => absurd (hr ▸ he) (unorderedRaw_ne_orderedRaw c)⟩
          fun r' _ hr' => ⟨rfl, fun he => absurd (he.trans hr.symm) hr', fun _ _ _ => rfl⟩
        intro x hx
        rcases List.mem_append.1 hx with hx | hx
        · exact hahead x hx
        · rw [List.mem_singleton.1 hx]
          exact ⟨hi, hwin.2⟩

theorem Abstracts.receive_ordered (h : Abstracts σ w)
    {a : Arrival} (hm : a.method = .reliableOrdered) (ha : σ.InWindow a) :
    ∃ w', w.receive a.inbound a.time = .ok ((σ.step a).1.1, (σ.step a).1.2, w') ∧
      Abstracts (σ.step a).2 w' := by
  have hnu : a.method ≠ .unreliable := by simp [hm]
  have hlt := a.raw_lt
  have hwin := ha hnu
  have hf := h.folds a.raw hlt
  have hseq : (Kind.user a.method a.channel).hasSeq = true := a.hasSeq_eq.2 hnu
  have hbyte : (Kind.user a.method a.channel).byte = .ok a.raw := a.kind_byte
  have hge : ¬ a.raw ≥ Kind.count := by omega
  have hdist : (Seq.ofNat a.index).distance (w.expectedOf a.raw) =
      (a.index : Int) - (σ.track a.raw).pos := by
    rw [hf.expected]
    exact Seq.distance_ofNat hwin.1 hwin.2
  have hc32 : a.channel < 32 := by simpa [hm, Delivery.channels] using a.valid
  have hc : ¬ a.channel ≥ 32 := by omega
  have hr : a.raw = orderedRaw a.channel := (a.raw_eq_orderedRaw hc32).2 ⟨hm, rfl⟩
  obtain ⟨hheld, hahead⟩ := hf.held a.channel hc32 hr
  have h1 := h.queueAck (Seq.ofNat a.index) a.raw a.time
  have hnr : a.raw ≠ unorderedRaw := fun he => by
    have := (a.raw_eq_unorderedRaw).1 he
    simp [hm] at this
  have hsame : ∀ {l : List (Seq × Inbound)} {s : Seq} {v : ReceiveWindow},
      v = w.queueAck (Seq.ofNat a.index) a.raw a.time →
      ∀ r' < Kind.count, r' ≠ a.raw →
        SameAt v { v.setExpected a.raw s with
          withheld := v.withheld.setIfInBounds a.channel l } r' := by
    rintro l s v rfl r' _ hr'
    refine ⟨ReceiveWindow.expectedOf_setExpected_ne (Ne.symm hr'), fun _ => rfl, fun c' _ he => ?_⟩
    exact ReceiveWindow.withheldOf_set_ne (fun hcc => hr' (he.trans (hcc ▸ hr.symm)))
  rw [hm] at hseq hbyte
  rcases Nat.lt_trichotomy a.index (σ.track a.raw).pos with hi | hi | hi
  · have hneg : (a.index : Int) - (σ.track a.raw).pos < 0 := by omega
    refine ⟨w.queueAck (Seq.ofNat a.index) a.raw a.time, ?_, ?_⟩
    · simp only [ReceiveWindow.receive, Arrival.inbound, Arrival.kind, hseq, if_true, hbyte,
        bind, Except.bind, hge, if_false, hm, Delivery.isReliable,
        ReceiveWindow.expectedOf_queueAck, hdist, hneg, Ledger.step, Track.receive, hi]
      simp
    · simp only [Ledger.step, Track.receive, hm, hi, true_or, if_true, Ledger.update_self]
      exact h1
  · -- on time: delivered with the held messages that now follow it
    have hz : (a.index : Int) - (σ.track a.raw).pos = 0 := by omega
    have hi1 : ¬ a.index < (σ.track a.raw).pos := by omega
    have hi2 : ¬ (σ.track a.raw).pos < a.index := by omega
    have hnotin : a.index ∉ (σ.track a.raw).held.map (·.1) := fun hx => by
      obtain ⟨p, hp, hpe⟩ := List.mem_map.1 hx
      have := (hahead p hp).1
      omega
    have hfold := releaseWithheld_fold (a.index + 1) ((σ.track a.raw).held.length + 1) hahead
      ⟨by omega, by simp only [seqSpace]; omega⟩
    obtain ⟨hle, hmem⟩ := Track.release_spec (a.index + 1) ((σ.track a.raw).held.length + 1)
      (fun p hp => by have := (hahead p hp).1; omega) (by omega)
    refine ⟨{ (w.queueAck (Seq.ofNat a.index) a.raw a.time).setExpected a.raw
        (Seq.ofNat (Track.release (σ.track a.raw).held (a.index + 1)
          ((σ.track a.raw).held.length + 1)).2.2) with
        withheld := (w.queueAck (Seq.ofNat a.index) a.raw a.time).withheld.setIfInBounds a.channel
          ((Track.release (σ.track a.raw).held (a.index + 1)
            ((σ.track a.raw).held.length + 1)).2.1.map foldHeld) }, ?_, ?_⟩
    · simp only [ReceiveWindow.receive, Arrival.inbound, Arrival.kind, hseq, if_true, hbyte,
        bind, Except.bind, hge, if_false, hm, Delivery.isReliable,
        ReceiveWindow.expectedOf_queueAck, hdist, hz, hc, ReceiveWindow.withheldOf_queueAck, hheld,
        Seq.ofNat_next, List.length_map, hfold, Ledger.step, Track.receive, hi1, hi2, hnotin]
      simp
    · simp only [Ledger.step, Track.receive, hm, hi1, hi2, hnotin, or_self, if_false]
      refine h1.update (by simpa [ReceiveWindow.setExpected] using h1.expected_size)
        (by simpa [ReceiveWindow.setExpected] using h1.withheld_size)
        ⟨?_, fun he => absurd he hnr, fun c' hc' he => ?_⟩ (hsame rfl)
      · exact ReceiveWindow.expectedOf_setExpected_self (by rw [h1.expected_size]; exact hlt)
      · have hcc : c' = a.channel := by
          simp only [orderedRaw] at hr he
          omega
        subst hcc
        refine ⟨ReceiveWindow.withheldOf_set_self
          (by simp only [ReceiveWindow.setExpected]; rw [h1.withheld_size]; exact hc'), ?_⟩
        intro p hp
        have hlt' := (hahead p (hmem p hp).1).2
        have hpos : (σ.track a.raw).pos ≤ a.index + 1 := by omega
        exact ⟨(hmem p hp).2, Nat.lt_of_lt_of_le hlt' (Nat.add_le_add_right (hpos.trans hle) _)⟩
  · -- ahead: a duplicate if already held, else held back
    have hpos : 0 < (a.index : Int) - (σ.track a.raw).pos := by omega
    have hneg : ¬ (a.index : Int) - (σ.track a.raw).pos < 0 := by omega
    have hi1 : ¬ a.index < (σ.track a.raw).pos := by omega
    have hnear : ∀ p ∈ (σ.track a.raw).held, p.1 < a.index + seqSpace ∧ a.index < p.1 + seqSpace :=
      fun p hp => by
        have := hahead p hp
        simp only [Track.Ahead, seqSpace] at this hwin ⊢
        omega
    have hkey :
        (((σ.track a.raw).held.map foldHeld).find? (·.1 == Seq.ofNat a.index)).isSome = true ↔
        a.index ∈ (σ.track a.raw).held.map (·.1) := by
      rw [find?_map_foldHeld hnear, Option.isSome_map, List.find?_isSome]
      simp
    by_cases hin : a.index ∈ (σ.track a.raw).held.map (·.1)
    · refine ⟨w.queueAck (Seq.ofNat a.index) a.raw a.time, ?_, ?_⟩
      · simp only [ReceiveWindow.receive, Arrival.inbound, Arrival.kind, hseq, if_true, hbyte,
          bind, Except.bind, hge, if_false, hm, Delivery.isReliable,
          ReceiveWindow.expectedOf_queueAck, hdist, hneg, hpos, hc,
          ReceiveWindow.withheldOf_queueAck,
          hheld, hkey.2 hin, Ledger.step, Track.receive, hi1, hin]
        simp
      · simp only [Ledger.step, Track.receive, hm, hin, or_true, if_true, Ledger.update_self]
        exact h1
    · have hnk :
          ¬ ((((σ.track a.raw).held.map foldHeld).find? (·.1 == Seq.ofNat a.index)).isSome = true) :=
        fun h => hin (hkey.1 h)
      refine ⟨{ w.queueAck (Seq.ofNat a.index) a.raw a.time with
        withheld := (w.queueAck (Seq.ofNat a.index) a.raw a.time).withheld.setIfInBounds a.channel
          ((σ.track a.raw).held.map foldHeld ++ [(Seq.ofNat a.index, a.inbound)]) }, ?_, ?_⟩
      · simp only [ReceiveWindow.receive, Arrival.inbound, Arrival.kind, hseq, if_true, hbyte,
          bind, Except.bind, hge, if_false, hm, Delivery.isReliable,
          ReceiveWindow.expectedOf_queueAck, hdist, hneg, hpos, hc,
          ReceiveWindow.withheldOf_queueAck,
          hheld, hnk, Ledger.step, Track.receive, hi1, hin, hi]
        simp
      · simp only [Ledger.step, Track.receive, hm, hi1, hin, hi, or_self, if_false, if_true]
        refine h1.update h1.expected_size (by simpa using h1.withheld_size)
          ⟨(h1.folds a.raw hlt).expected, fun he => absurd he hnr, fun c' hc' he => ?_⟩
          fun r' _ hr' => ⟨rfl, fun _ => rfl, fun c' _ he =>
            ReceiveWindow.withheldOf_set_ne (fun hcc => hr' (he.trans (hcc ▸ hr.symm)))⟩
        have hcc : c' = a.channel := by
          simp only [orderedRaw] at hr he
          omega
        subst hcc
        refine ⟨?_, ?_⟩
        · rw [ReceiveWindow.withheldOf_set_self (by rw [h1.withheld_size]; exact hc')]
          simp [foldHeld, Arrival.inbound, Arrival.kind, hm]
        · intro p hp
          rcases List.mem_append.1 hp with hp | hp
          · exact hahead p hp
          · rw [List.mem_singleton.1 hp]
            exact ⟨hi, hwin.2⟩

/-- One arrival within the window: the same verdict and deliveries as the specification, and
the window again abstracts the ledger. -/
theorem Abstracts.receive (h : Abstracts σ w) {a : Arrival} (ha : σ.InWindow a) :
    ∃ w', w.receive a.inbound a.time = .ok ((σ.step a).1.1, (σ.step a).1.2, w') ∧
      Abstracts (σ.step a).2 w' := by
  cases hm : a.method with
  | unreliable => exact h.receive_unreliable hm
  | unreliableSequenced => exact h.receive_sequenced (.inl hm) ha
  | reliableUnordered => exact h.receive_unordered hm ha
  | reliableSequenced => exact h.receive_sequenced (.inr hm) ha
  | reliableOrdered => exact h.receive_ordered hm ha

theorem Abstracts.receiveAll (h : Abstracts σ w) {as : List Arrival} (ha : σ.Admissible as) :
    ∃ w', w.receiveAll as = .ok ((σ.run as).1, w') ∧ Abstracts (σ.run as).2 w' := by
  induction as generalizing σ w with
  | nil => exact ⟨w, rfl, h⟩
  | cons a as ih =>
    obtain ⟨w₁, hw₁, h₁⟩ := h.receive ha.1
    obtain ⟨w₂, hw₂, h₂⟩ := ih h₁ ha.2
    refine ⟨w₂, ?_, h₂⟩
    simp only [ReceiveWindow.receiveAll, hw₁, hw₂, bind, Except.bind, pure, Except.pure, Ledger.run]

end Step

theorem abstracts_fresh : Abstracts {} {} where
  expected_size := by simp [Kind.count]
  withheld_size := by simp
  folds r hr := ⟨by
      have : r < 100 := hr
      simp [ReceiveWindow.expectedOf, Kind.count, this]; rfl,
    fun _ => ⟨rfl, List.nodup_nil, by simp⟩,
    fun c hc _ => ⟨by simp [ReceiveWindow.withheldOf, hc], by simp⟩⟩

/-- The receive window refines the unbounded counters: for every run of arrivals in which
each index lies within half the sequence space of its kind's position when it arrives, a
fresh window gives the specification's verdicts and delivers the specification's messages in
the specification's order, and ends with the specification's positions modulo 1024 as its
expected numbers and the specification's early indices and held messages, folded into the
space, as its early numbers and withheld messages. -/
theorem receiveAll_refines (as : List Arrival) (ha : ({} : Ledger).Admissible as) :
    ∃ w, ({} : ReceiveWindow).receiveAll as = .ok ((({} : Ledger).run as).1, w) ∧
      Abstracts (({} : Ledger).run as).2 w :=
  abstracts_fresh.receiveAll ha

theorem receiveAll_refines_reordered :
    let as : List Arrival := [2, 0, 1].map fun i =>
      { method := .reliableOrdered, channel := 0, valid := by decide, index := i, data := [] }
    ({} : Ledger).Admissible as ∧ ∃ w, ({} : ReceiveWindow).receiveAll as =
      .ok ((({} : Ledger).run as).1, w) ∧ Abstracts (({} : Ledger).run as).2 w :=
  ⟨by decide, receiveAll_refines _ (by decide)⟩

end ReliableUdp
