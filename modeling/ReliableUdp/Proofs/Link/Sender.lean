import ReliableUdp.Proofs.Link.Model

/-!
# The sender's side of the link

`Link.Logged`: the send window is numbered by the numbering of its moves, and each stored
message is the logged first copy of its index. Sends, resend passes that give nothing up, and
acknowledgements that can name only one stored index keep it.
-/

namespace ReliableUdp

theorem Kind.remembered_spec {k : Kind} (h : k.remembered = true) :
    k.carriesSeq = .ok true ∧ k.slot = .ok k.toRaw ∧ k.isReliable = true ∧ k.toRaw < Kind.count := by
  rcases k with _ | _ | ⟨m, ch⟩
  · simp [Kind.remembered] at h
  · simp [Kind.remembered] at h
  · have hb : (Kind.user m ch).toRaw < Kind.count := by
      cases m <;> simp_all [Kind.remembered, Kind.toRaw, Delivery.base, Kind.count] <;> omega
    have hbyte : (Kind.user m ch).byte = .ok (Kind.user m ch).toRaw := by
      simp only [Kind.byte, Kind.count] at hb ⊢
      simp [show (Kind.user m ch).toRaw < 256 by omega]
    refine ⟨?_, ?_, ?_, hb⟩
    · simp only [Kind.carriesSeq, hbyte, bind, Except.bind, pure, Except.pure, Except.ok.injEq,
        decide_eq_true_eq]
      cases m <;> simp_all [Kind.remembered, Kind.toRaw, Delivery.base] <;> omega
    · simp [Kind.slot, hbyte, hb, bind, Except.bind, pure, Except.pure]
    · cases m <;> simp_all [Kind.remembered, Kind.isReliable, Delivery.isReliable]

theorem Kind.remembered_raw {k : Kind} (h : k.remembered = true) :
    k.toRaw = unorderedRaw ∨ ∃ c < 32, k.toRaw = orderedRaw c := by
  rcases k with _ | _ | ⟨m, ch⟩
  · simp [Kind.remembered] at h
  · simp [Kind.remembered] at h
  · cases m <;> simp_all [Kind.remembered, Kind.toRaw, unorderedRaw, orderedRaw]

theorem Inbound.arrival {x : Inbound} {i : Nat} (hk : x.kind.remembered = true)
    (hs : x.seq = some (Seq.ofNat i)) (now : Nat) :
    ∃ a : Arrival, a.inbound = x ∧ a.index = i ∧ a.time = now ∧ a.raw = x.kind.toRaw ∧
      a.method.isReliable = true := by
  obtain ⟨kind, seq, fragment, data⟩ := x
  dsimp only at hk hs ⊢
  subst hs
  rcases kind with _ | _ | ⟨m, ch⟩
  · simp [Kind.remembered] at hk
  · simp [Kind.remembered] at hk
  · have hv : ch < m.channels := by
      cases m <;> simp_all [Kind.remembered, Delivery.channels]
    have hrel : m.isReliable = true := by
      cases m <;> simp_all [Kind.remembered, Delivery.isReliable]
    refine ⟨{ method := m, channel := ch, valid := hv, index := i, fragment, data, time := now },
      ?_, rfl, rfl, rfl, hrel⟩
    have hseq : (Kind.user m ch).hasSeq = true := by
      cases m <;> simp_all [Kind.remembered, Kind.hasSeq, Kind.toRaw, Delivery.base] <;> omega
    simp [Arrival.inbound, Arrival.kind, hseq]

@[simp] theorem Queued.inboundAs_kind (m : Queued) (s : Seq) : (m.inboundAs s).kind = m.kind := rfl

namespace Inbound

@[simp] theorem mem_onRaw {r : Nat} {xs : List Inbound} {x : Inbound} :
    x ∈ onRaw r xs ↔ x ∈ xs ∧ x.kind.toRaw = r := by
  simp [onRaw]

theorem onRaw_append (r : Nat) (xs ys : List Inbound) : onRaw r (xs ++ ys) = onRaw r xs ++ onRaw r ys :=
  List.filter_append ..

theorem onRaw_singleton (r : Nat) (x : Inbound) :
    onRaw r [x] = if x.kind.toRaw = r then [x] else [] := by
  by_cases h : x.kind.toRaw = r <;> simp [onRaw, h]

theorem raw_of_getElem?_onRaw {r i : Nat} {xs : List Inbound} {x : Inbound}
    (h : (onRaw r xs)[i]? = some x) : x.kind.toRaw = r :=
  (mem_onRaw.1 (List.mem_of_getElem? h)).2

end Inbound

namespace SendWindow

theorem storedOf_map_eq {β : Type} {w w' : SendWindow} (p : Stored → β)
    (h : w'.stored.toList.map (·.map p) = w.stored.toList.map (·.map p)) (r : Nat) :
    (w'.storedOf r).map p = (w.storedOf r).map p := by
  have h' := congrArg (fun l => l[r]?) h
  simp only [List.getElem?_map, Array.getElem?_toList] at h'
  simp only [storedOf, Array.getD_eq_getD_getElem?]
  cases h₁ : w'.stored[r]? <;> cases h₂ : w.stored[r]? <;> simp_all

theorem mem_storedOf_of_mem_all {w : SendWindow} {s : Stored} (h : s ∈ w.all) :
    ∃ r, s ∈ w.storedOf r := by
  simp only [all, List.mem_flatten] at h
  obtain ⟨lst, hl, hs⟩ := h
  obtain ⟨r, hr, hget⟩ := List.getElem_of_mem hl
  refine ⟨r, ?_⟩
  simp only [Array.getElem_toList] at hget
  simp only [storedOf, Array.getD_eq_getD_getElem?, Array.length_toList] at hr ⊢
  rw [Array.getElem?_eq_getElem hr, hget]
  exact hs

theorem Passes.inbound_eq {now rtt : Nat} {r : ResendSchedule} {s : Stored} {o : Option Stored}
    (h : Passes now r rtt s o) (hd : drops now r s = false) : o.map Stored.inbound = some s.inbound := by
  cases h with
  | wait => rfl
  | drop h₁ h₂ => simp [drops, h₁, h₂] at hd
  | resend => rfl

theorem Passes.filterMap_inbound {now rtt : Nat} {r : ResendSchedule} {l : List Stored}
    {os : List (Option Stored)} (h : List.Forall₂ (Passes now r rtt) l os)
    (hd : ∀ s ∈ l, drops now r s = false) : (os.filterMap id).map Stored.inbound = l.map Stored.inbound := by
  induction h with
  | nil => rfl
  | @cons s o l os hp _ ih =>
    have ho := hp.inbound_eq (hd s List.mem_cons_self)
    have ih' := ih fun s' hs' => hd s' (List.mem_cons_of_mem _ hs')
    cases o with
    | none => cases ho
    | some s' =>
      simp only [Option.map_some, Option.some.injEq] at ho
      rw [List.filterMap_cons_some (f := id) rfl, List.map_cons, List.map_cons, ho, ih']

theorem Passes.lists_inbound {now rtt : Nat} {r : ResendSchedule} {L : List (List Stored)}
    {oss : List (List (Option Stored))} (h : List.Forall₂ (List.Forall₂ (Passes now r rtt)) L oss)
    (hd : ∀ s ∈ L.flatten, drops now r s = false) :
    (oss.map (·.filterMap id)).map (·.map Stored.inbound) = L.map (·.map Stored.inbound) := by
  induction h with
  | nil => rfl
  | cons hl _ ih =>
    simp only [List.flatten_cons, List.mem_append] at hd
    simp only [List.map_cons, List.cons.injEq]
    exact ⟨Passes.filterMap_inbound hl fun s hs => hd s (.inl hs), ih fun s hs => hd s (.inr hs)⟩

theorem resendDue_keeps {w w' : SendWindow} {now rtt : Nat} {r : ResendSchedule} {pass : ResendPass}
    (h : w.resendDue now r rtt = .ok (pass, w')) (hd : pass.dropped = []) :
    (∀ raw, (w'.storedOf raw).map Stored.inbound = (w.storedOf raw).map Stored.inbound) ∧
      w'.nextSeq = w.nextSeq ∧ (w.passes now = true → ∀ s ∈ w.all, drops now r s = false) ∧
      ∀ p ∈ pass.resent, ∃ s ∈ w.all, p = (s.msg, s.seq) := by
  cases hp : w.passes now
  · rw [resendDue_of_not_passes hp] at h
    cases h
    exact ⟨fun _ => rfl, rfl, (fun h => by cases h), fun p hp => by simp at hp⟩
  · rw [resendDue_of_passes hp] at h
    obtain ⟨oss, hoss, hst, hres, hdrop, -, -, hnext⟩ := scan_passes h
    have hnd : ∀ s ∈ w.all, drops now r s = false := by
      intro s hs
      by_contra hc
      have : s.msg ∈ pass.dropped := by
        rw [hdrop]
        exact List.mem_map_of_mem (List.mem_filter.2 ⟨hs, by simpa using hc⟩)
      simp [hd] at this
    refine ⟨fun raw => storedOf_map_eq _ ?_ raw, hnext, fun _ => hnd, fun p hp' => ?_⟩
    · rw [hst]
      exact Passes.lists_inbound hoss hnd
    · rw [hres] at hp'
      obtain ⟨s, hs, rfl⟩ := List.mem_map.1 hp'
      exact ⟨s, (List.mem_filter.1 hs).1, rfl⟩


theorem keepsAt_of_drops {now : Nat} {r : ResendSchedule} {s : Stored} (h : drops now r s = false) :
    keepsAt now r s = true := by
  simp only [drops, Bool.and_eq_false_iff, decide_eq_false_iff_not, Nat.not_le] at h
  simp only [keepsAt, Bool.or_eq_true, decide_eq_true_eq]
  omega

theorem storedOf_keep {w : SendWindow} {m : Queued} {s : Seq} {t : Nat} (hk : m.kind.remembered = true)
    (hsize : w.stored.size = Kind.count) (r : Nat) :
    (w.keep m (some s) t).storedOf r = if r = m.kind.toRaw then
      w.storedOf r ++ [{ msg := m, seq := s, sends := 1, nextResend := t }] else w.storedOf r := by
  obtain ⟨-, hslot, hrel, hlt⟩ := Kind.remembered_spec hk
  simp only [keep, hslot, hrel, if_true]
  split
  · subst r
    exact getD_setIfInBounds_self (hsize ▸ hlt)
  · exact getD_setIfInBounds_ne (Ne.symm ‹_›)

end SendWindow

theorem Numbering.step_send {g : Numbering} {w : SendWindow} {m : Queued} (hk : m.kind.remembered = true) :
    g.step w (.send m) =
      { assigned := Function.update g.assigned m.kind.toRaw (g.assigned m.kind.toRaw + 1)
        index := Function.update g.index m.kind.toRaw (g.index m.kind.toRaw ++ [g.assigned m.kind.toRaw]) } := by
  obtain ⟨hc, hs, hr, -⟩ := Kind.remembered_spec hk
  simp [Numbering.step, hc, hs, hr]

theorem Numbering.step_resend {g : Numbering} {w : SendWindow} {now rtt : Nat} {r : ResendSchedule}
    (h : w.Numbered g) (hnd : w.passes now = true → ∀ s ∈ w.all, SendWindow.drops now r s = false) :
    g.step w (.resend now r rtt) = g := by
  simp only [Numbering.step]
  split
  · rename_i hp
    have hnd := hnd hp
    congr 1
    funext raw
    have hlen : (g.index raw).length ≤ (w.storedOf raw).length := by
      have := congrArg List.length (h.numbers raw)
      simp only [List.length_map] at this
      omega
    rw [List.filter_eq_self.2 fun p hp => ?_, List.map_fst_zip hlen]
    exact SendWindow.keepsAt_of_drops (hnd p.2 (SendWindow.mem_all (List.of_mem_zip hp).2))
  · rfl

theorem List.findIdx?_eq_some_unique {l : List Nat} {p : Nat → Bool} {j k : Nat}
    (hp : ∀ i ∈ l, p i = true ↔ i = j) (hk : l.findIdx? p = some k) :
    l[k]? = some j ∧ l.eraseIdx k = l.erase j := by
  induction l generalizing k with
  | nil => simp at hk
  | cons a l ih =>
    by_cases ha : a = j
    · subst ha
      have hpa : p a = true := (hp a List.mem_cons_self).2 rfl
      simp only [List.findIdx?_cons, hpa, if_true, Option.some.injEq] at hk
      subst hk
      simp
    · have hpa : p a = false := by
        cases h : p a
        · rfl
        · exact absurd ((hp a List.mem_cons_self).1 h) ha
      simp only [List.findIdx?_cons, hpa, Bool.false_eq_true, if_false, Option.map_eq_some_iff] at hk
      obtain ⟨k', hk', rfl⟩ := hk
      obtain ⟨h₁, h₂⟩ := ih (fun i hi => hp i (List.mem_cons_of_mem _ hi)) hk'
      refine ⟨by simpa using h₁, ?_⟩
      rw [List.erase_cons_tail (by simpa using ha), List.eraseIdx_cons_succ, h₂]

theorem List.not_mem_of_findIdx?_eq_none {l : List Nat} {p : Nat → Bool} {j : Nat}
    (hp : ∀ i ∈ l, p i = true ↔ i = j) (hk : l.findIdx? p = none) : j ∉ l := fun hj => by
  have hpj := List.findIdx?_eq_none_iff.1 hk j hj
  rw [(hp j hj).2 rfl] at hpj
  cases hpj

namespace SendWindow

theorem ack_cases {w : SendWindow} (hsize : w.stored.size = Kind.count) {r : Nat} (hr : r < Kind.count)
    (s : Seq) :
    ((w.storedOf r).findIdx? (·.seq == s) = none ∧ w.ack s r = (none, w)) ∨
    ∃ k, (w.storedOf r).findIdx? (·.seq == s) = some k ∧
      (w.ack s r).1 = ((w.storedOf r)[k]?).map (·.msg) ∧
      ∀ r', (w.ack s r).2.storedOf r' = if r' = r then (w.storedOf r).eraseIdx k else w.storedOf r' := by
  have hst := stored_ack (w := w) s r
  rw [if_pos hr] at hst
  cases hf : (w.storedOf r).findIdx? (·.seq == s) with
  | none =>
    left
    refine ⟨rfl, ?_⟩
    unfold SendWindow.ack
    simp only [show ¬ r ≥ Kind.count by omega, if_false, hf]
  | some k =>
    right
    simp only [hf] at hst
    refine ⟨k, rfl, ?_, fun r' => ?_⟩
    · unfold SendWindow.ack
      simp only [show ¬ r ≥ Kind.count by omega, if_false, hf]
    · show (w.ack s r).2.stored.getD r' [] = _
      rw [hst]
      by_cases hr' : r' = r
      · subst r'
        rw [if_pos rfl]
        exact getD_setIfInBounds_self (hsize ▸ hr)
      · rw [if_neg hr']
        exact getD_setIfInBounds_ne (Ne.symm hr')

end SendWindow

theorem Numbering.step_ack {g : Numbering} {w : SendWindow} {s : Seq} {r j : Nat} (hr : r < Kind.count)
    (huniq : ∀ i ∈ g.index r, Seq.ofNat i = s ↔ i = j) :
    g.step w (.ack s r) = { g with index := Function.update g.index r ((g.index r).erase j) } := by
  have hp : ∀ i ∈ g.index r, ((· == s) ∘ Seq.ofNat) i = true ↔ i = j := fun i hi => by
    simpa using huniq i hi
  simp only [Numbering.step, if_pos hr, List.findIdx?_map]
  cases hk : (g.index r).findIdx? ((· == s) ∘ Seq.ofNat) with
  | none =>
    rw [List.erase_of_not_mem (List.not_mem_of_findIdx?_eq_none hp hk), Function.update_eq_self]
  | some k =>
    dsimp only
    rw [(List.findIdx?_eq_some_unique hp hk).2]

def Numbering.Recent (g : Numbering) : Prop := ∀ r, ∀ i ∈ g.index r, g.assigned r < i + seqSpace / 2

theorem Numbering.recent_empty : ({} : Numbering).Recent := fun _ _ hi => by cases hi

theorem SendWindow.Numbered.not_withinHalf {w : SendWindow} {g : Numbering} (h : w.Numbered g)
    {r i : Nat} (hi : i ∈ g.index r) (hd : Seq.distance (Seq.ofNat (g.assigned r)) (Seq.ofNat i) ≤ 0) :
    ¬ w.WithinHalf := by
  intro hw
  have hmem : Seq.ofNat i ∈ (w.storedOf r).map (·.seq) := h.numbers r ▸ List.mem_map_of_mem hi
  obtain ⟨s, hs, hseq⟩ := List.mem_map.1 hmem
  -- only the types the window has store anything
  have hr : r < Kind.count := by
    by_contra hge
    have : w.storedOf r = [] := by
      have hsz : w.stored.size ≤ r := h.stored_size ▸ Nat.le_of_not_lt hge
      simp only [SendWindow.storedOf, Array.getD_eq_getD_getElem?, Array.getElem?_eq_none hsz, Option.getD_none]
    simp [this] at hs
  have := hw r hr s hs
  rw [h.next r hr, hseq] at this
  omega

theorem SendWindow.Numbered.assigned_ne_half {w : SendWindow} {g : Numbering} (h : w.Numbered g)
    (hw : w.WithinHalf) {r i : Nat} (hi : i ∈ g.index r) : g.assigned r ≠ i + seqSpace / 2 := fun he =>
  h.not_withinHalf hi (by rw [he, Seq.distance_ofNat_half]; decide) hw

namespace Link

variable {l l' : Link} {g : Numbering}

/-- The sender's window is numbered by `g`, each stored message is the logged first copy of its
index, and the `i`-th logged message of a type carries number `i mod 1024`. -/
structure Logged (l : Link) (g : Numbering) : Prop where
  numbered : l.tx.Numbered g
  stored : ∀ r, (l.tx.storedOf r).map (some ∘ Stored.inbound) = (g.index r).map ((l.sentOn r)[·]?)
  assigned : ∀ r, g.assigned r = (l.sentOn r).length
  sent : ∀ r i x, (l.sentOn r)[i]? = some x → x.seq = some (Seq.ofNat i) ∧ x.kind.remembered = true

theorem Logged.fresh (n : Nat) : (fresh n).Logged {} where
  numbered := SendWindow.Numbered.fresh n
  stored r := by
    simp only [Link.fresh, SendWindow.storedOf, SendWindow.getD_replicate_nil, List.map_nil]
  assigned r := by simp [sentOn, Link.fresh, Inbound.onRaw]
  sent r i x h := by simp [sentOn, Link.fresh, Inbound.onRaw] at h

theorem Logged.frame (h : l.Logged g) (ht : l'.tx = l.tx) (hf : l'.firsts = l.firsts) : l'.Logged g := by
  have hs : ∀ r, l'.sentOn r = l.sentOn r := fun r => by simp only [sentOn, hf]
  refine ⟨ht ▸ h.numbered, fun r => ?_, fun r => ?_, fun r => ?_⟩
  · rw [ht, hs]
    exact h.stored r
  · rw [hs]
    exact h.assigned r
  · rw [hs]
    exact h.sent r

theorem Logged.lt_of_mem (h : l.Logged g) {r i : Nat} (hi : i ∈ g.index r) : i < (l.sentOn r).length :=
  h.assigned r ▸ h.numbered.below r i hi

theorem Logged.stored_mem (h : l.Logged g) {r : Nat} {s : Stored} (hs : s ∈ l.tx.storedOf r) :
    ∃ i ∈ g.index r, (l.sentOn r)[i]? = some s.inbound := by
  have hm : some s.inbound ∈ (g.index r).map ((l.sentOn r)[·]?) := by
    rw [← h.stored r]
    exact List.mem_map_of_mem (f := some ∘ Stored.inbound) hs
  obtain ⟨i, hi, he⟩ := List.mem_map.1 hm
  exact ⟨i, hi, he⟩

theorem sentOn_send {m : Queued} {t : Nat} (ha : act (.send m t) l = some l') (r : Nat) :
    ∃ s, l'.sentOn r = l.sentOn r ++ if m.kind.toRaw = r then [m.inboundAs s] else [] := by
  obtain ⟨-, -, s, w, -, -, rfl⟩ := act_send ha
  exact ⟨s, by simp only [sentOn, Inbound.onRaw_append, Inbound.onRaw_singleton]; rfl⟩

theorem Logged.send (h : l.Logged g) {m : Queued} {t : Nat} (ha : act (.send m t) l = some l') :
    l'.Logged (g.step l.tx (.send m)) ∧
      l'.up = l.up ++ [m.inboundAs (Seq.ofNat (g.assigned m.kind.toRaw))] ∧
      l'.firsts = l.firsts ++ [m.inboundAs (Seq.ofNat (g.assigned m.kind.toRaw))] ∧
      (l'.sentOn m.kind.toRaw)[g.assigned m.kind.toRaw]? = some (m.inboundAs (Seq.ofNat (g.assigned m.kind.toRaw))) := by
  obtain ⟨-, hk, s, w, hfull, hassign, hl'⟩ := act_send ha
  obtain ⟨hc, hslot, -, hlt⟩ := Kind.remembered_spec hk
  set raw := m.kind.toRaw with hraw
  -- the number given out is the next one of the type, and the stored lists are untouched
  obtain ⟨hs, hw⟩ : s = Seq.ofNat (g.assigned raw) ∧ w.stored = l.tx.stored := by
    rcases SendWindow.assign_cases hassign with ⟨hc', -, -⟩ | ⟨raw', -, hslot', hseq, rfl⟩
    · rw [hc] at hc'
      cases hc'
    · obtain rfl : raw' = raw := (Except.ok.inj (hslot.symm.trans hslot')).symm
      exact ⟨(Option.some.inj hseq).trans (h.numbered.next _ hlt), rfl⟩
  subst hs
  set x := m.inboundAs (Seq.ofNat (g.assigned raw))
  have hsent : ∀ r, l'.sentOn r = l.sentOn r ++ if raw = r then [x] else [] := fun r => by
    rw [hl']
    simp only [sentOn, Inbound.onRaw_append, Inbound.onRaw_singleton]
    rfl
  have hstored : ∀ r, l'.tx.storedOf r = if r = raw then
      l.tx.storedOf r ++ [{ msg := m, seq := Seq.ofNat (g.assigned raw), sends := 1, nextResend := t }]
      else l.tx.storedOf r := fun r => by
    rw [hl']
    rw [SendWindow.storedOf_keep hk (hw ▸ h.numbered.stored_size) r, ← hraw]
    simp only [SendWindow.storedOf, hw]
  have hlen : (l.sentOn raw).length = g.assigned raw := (h.assigned raw).symm
  have hx : (l.sentOn raw ++ [x])[g.assigned raw]? = some x := by
    rw [← hlen, List.getElem?_concat_length]
  refine ⟨⟨?_, fun r => ?_, fun r => ?_, fun r i y hy => ?_⟩, by rw [hl'], by rw [hl'],
    by rw [hsent, if_pos rfl]; exact hx⟩
  · rw [hl']
    exact h.numbered.send hfull hassign t
  · rw [hsent, hstored, Numbering.step_send hk, ← hraw]
    dsimp only
    by_cases hr : r = raw
    · subst r
      rw [if_pos rfl, if_pos rfl, Function.update_self, List.map_append, List.map_append,
        List.map_congr_left fun i hi => List.getElem?_append_left (h.lt_of_mem hi), ← h.stored]
      simp only [List.map_cons, List.map_nil, hx]
      rfl
    · rw [if_neg hr, if_neg (Ne.symm hr), Function.update_of_ne hr, List.append_nil]
      exact h.stored r
  · rw [hsent, Numbering.step_send hk, ← hraw]
    dsimp only
    by_cases hr : r = raw
    · subst r
      simp [h.assigned]
    · rw [if_neg (Ne.symm hr), Function.update_of_ne hr, List.append_nil]
      exact h.assigned r
  · rw [hsent] at hy
    by_cases hi : i < (l.sentOn r).length
    · rw [List.getElem?_append_left hi] at hy
      exact h.sent r i y hy
    · rw [List.getElem?_append_right (Nat.le_of_not_lt hi)] at hy
      by_cases hr : raw = r
      · -- the one new entry sits at the old length, which is the number it was given
        subst r
        rw [if_pos rfl, List.getElem?_singleton] at hy
        split at hy
        · cases hy
          obtain rfl : i = g.assigned raw := by omega
          exact ⟨rfl, hk⟩
        · cases hy
      · rw [if_neg hr, List.getElem?_nil] at hy
        cases hy

theorem Logged.resend (h : l.Logged g) {now rtt : Nat} {rs : ResendSchedule}
    (ha : act (.resend now rs rtt) l = some l') (hkept : l'.lost = []) :
    l'.Logged g ∧ g.step l.tx (.resend now rs rtt) = g ∧
      ∀ y ∈ l'.up, y ∈ l.up ∨ ∃ r, ∃ st ∈ l.tx.storedOf r, y = st.inbound := by
  obtain ⟨-, pass, w, hr, rfl⟩ := act_resend ha
  have hd : pass.dropped = [] := List.append_eq_nil_iff.1 hkept |>.2
  obtain ⟨hst, -, hnd, hres⟩ := SendWindow.resendDue_keeps hr hd
  have hstep : g.step l.tx (.resend now rs rtt) = g := Numbering.step_resend h.numbered hnd
  refine ⟨⟨hstep ▸ h.numbered.resend hr, fun r => ?_, h.assigned, h.sent⟩, hstep, fun y hy => ?_⟩
  · rw [← List.map_map, hst r, List.map_map]
    exact h.stored r
  · rcases List.mem_append.1 hy with hy | hy
    · exact .inl hy
    · obtain ⟨p, hp, rfl⟩ := List.mem_map.1 hy
      obtain ⟨st, hst', rfl⟩ := hres p hp
      obtain ⟨r, hr'⟩ := SendWindow.mem_storedOf_of_mem_all hst'
      exact .inr ⟨r, st, hr', rfl⟩

theorem Logged.ackIn (h : l.Logged g) {s : Seq} {r j : Nat} (hr : r < Kind.count)
    (huniq : ∀ i ∈ g.index r, Seq.ofNat i = s ↔ i = j) :
    ({ l with
        tx := (l.tx.ack s r).2
        confirmed := l.confirmed ++ ((l.tx.ack s r).1.map (·.inboundAs s)).toList } : Link).Logged
      { g with index := Function.update g.index r ((g.index r).erase j) } ∧
    ((l.tx.ack s r).1.map (·.inboundAs s)).toList = if j ∈ g.index r then ((l.sentOn r)[j]?).toList else [] := by
  have hp : ∀ i ∈ g.index r, ((· == s) ∘ Seq.ofNat) i = true ↔ i = j := fun i hi => by
    simpa using huniq i hi
  have hfind : (l.tx.storedOf r).findIdx? (·.seq == s) = (g.index r).findIdx? ((· == s) ∘ Seq.ofNat) := by
    rw [← List.findIdx?_map, ← h.numbered.numbers r, List.findIdx?_map]
    rfl
  have hnum := Numbering.step_ack (w := l.tx) hr huniq ▸ h.numbered.ack s r
  rcases SendWindow.ack_cases h.numbered.stored_size hr s with ⟨hk, hack⟩ | ⟨k, hk, hfst, hst⟩
  · -- no stored number matches, so `j` is not stored and nothing changes
    have hj := List.not_mem_of_findIdx?_eq_none hp (hfind ▸ hk)
    rw [List.erase_of_not_mem hj, Function.update_eq_self, if_neg hj, hack]
    exact ⟨h.frame rfl rfl, rfl⟩
  · obtain ⟨hkj, herase⟩ := List.findIdx?_eq_some_unique hp (hfind ▸ hk)
    obtain ⟨hkl, hks, -⟩ := List.findIdx?_eq_some_iff_getElem.1 hk
    have hstk := congrArg (·[k]?) (h.stored r)
    simp only [List.getElem?_map, hkj, Option.map_some, List.getElem?_eq_getElem hkl,
      Function.comp_apply, Option.some.injEq] at hstk
    have hseq : (l.tx.storedOf r)[k].seq = s := by simpa using hks
    refine ⟨⟨hnum, fun r' => ?_, h.assigned, h.sent⟩, ?_⟩
    · dsimp only
      rw [hst r']
      by_cases hr' : r' = r
      · subst hr'
        rw [if_pos rfl, Function.update_self, ← herase, ← List.eraseIdx_map, h.stored r', List.eraseIdx_map]
        rfl
      · rw [if_neg hr', Function.update_of_ne hr']
        exact h.stored r'
    · rw [hfst, if_pos (List.mem_of_getElem? hkj), ← hstk, List.getElem?_eq_getElem hkl]
      simp [Stored.inbound, hseq]

theorem Logged.recent_send (h : l.Logged g) (hr : g.Recent) {m : Queued} {t : Nat}
    (ha : act (.send m t) l = some l') (hw : l'.tx.WithinHalf) : (g.step l.tx (.send m)).Recent := by
  obtain ⟨hl', -⟩ := h.send ha
  have hk := (act_send ha).2.1
  intro r i hi
  have hne := hl'.numbered.assigned_ne_half hw hi
  rw [Numbering.step_send hk] at hi hne ⊢
  by_cases hraw : r = m.kind.toRaw
  · subst hraw
    simp only [Function.update_self, List.mem_append, List.mem_singleton] at hi hne ⊢
    rcases hi with hi | rfl
    · have := hr _ i hi
      omega
    · simp [seqSpace]
  · simp only [Function.update_of_ne hraw] at hi ⊢
    exact hr r i hi

theorem getElem?_sentOn_send {m : Queued} {t : Nat} (ha : act (.send m t) l = some l') {r i : Nat} {x : Inbound}
    (hx : (l.sentOn r)[i]? = some x) : (l'.sentOn r)[i]? = some x := by
  obtain ⟨s, hs⟩ := sentOn_send ha r
  rw [hs, List.getElem?_append_left (List.getElem?_eq_some_iff.1 hx).1, hx]

theorem Logged.act_send_isSome (h : l.Logged g) (hph : l.phase = .sending) {m : Queued}
    (hk : m.kind.remembered = true) (hroom : (g.index m.kind.toRaw).length < l.tx.window) (t : Nat) :
    ∃ l', act (.send m t) l = some l' := by
  obtain ⟨hc, hs, hr, -⟩ := Kind.remembered_spec hk
  have hlen : (l.tx.storedOf m.kind.toRaw).length = (g.index m.kind.toRaw).length := by
    simpa using congrArg List.length (h.numbered.numbers m.kind.toRaw)
  have hfull : l.tx.isFull m.kind = .ok false := (SendWindow.isFull_eq_false_iff hr hs).2 (hlen ▸ hroom)
  obtain ⟨s, w, hassign⟩ : ∃ s w, l.tx.assign m.kind = .ok (some s, w) :=
    ⟨_, _, by simp only [SendWindow.assign, hc, hs]; rfl⟩
  simp only [act, hph, hk, and_self, if_true, hfull, hassign]
  exact ⟨_, rfl⟩

/-- Sending `f a, f (a + 1), …, f (a + n - 1)` of one remembered kind from a sending link whose
next index of that kind is `a` and whose window has room: each message goes out with its index
as its number, and nothing but the send window and the two logs of first copies changes. -/
theorem Logged.run_sends (h : l.Logged g) (hph : l.phase = .sending) {k : Kind}
    (hk : k.remembered = true) {f : Nat → Queued} (hf : ∀ i, (f i).kind = k) {t a n : Nat}
    (ha : g.assigned k.toRaw = a) (hroom : (g.index k.toRaw).length + n ≤ l.tx.window) :
    ∃ l' g', run ((List.range' a n).map fun i => .send (f i) t) l = some l' ∧ l'.Logged g' ∧
      { l' with tx := l.tx, up := l.up, firsts := l.firsts } = l ∧
      l'.up = l.up ++ (List.range' a n).map (fun i => (f i).inboundAs (Seq.ofNat i)) ∧
      l'.firsts = l.firsts ++ (List.range' a n).map (fun i => (f i).inboundAs (Seq.ofNat i)) ∧
      g'.assigned k.toRaw = a + n ∧ g'.index k.toRaw = g.index k.toRaw ++ List.range' a n := by
  induction n generalizing l g a with
  | zero => exact ⟨l, g, rfl, h, rfl, by simp, by simp, by simp [ha], by simp⟩
  | succ n ih =>
    have hka : (f a).kind.remembered = true := hf a ▸ hk
    obtain ⟨l₁, ha₁⟩ := h.act_send_isSome hph hka (by rw [hf a]; omega) t
    obtain ⟨hlog, hup, hfirsts, -⟩ := h.send ha₁
    obtain ⟨-, -, s, w, hfull, hassign, rfl⟩ := act_send ha₁
    have hstep := Numbering.step_send (g := g) (w := l.tx) hka
    rw [hf a] at hstep hup hfirsts
    rw [ha] at hup hfirsts
    have hA : (g.step l.tx (.send (f a))).assigned k.toRaw = a + 1 := by
      rw [hstep]
      simp [ha]
    have hI : (g.step l.tx (.send (f a))).index k.toRaw = g.index k.toRaw ++ [a] := by
      rw [hstep]
      simp [ha]
    have hwin : (w.keep (f a) (some s) t).window = l.tx.window := (SendWindow.Move.send hfull hassign t).window
    obtain ⟨l', g', hrun, hlog', hframe, hup', hfirsts', hA', hI'⟩ :=
      ih hlog hph hA (by rw [hI, List.length_append, List.length_singleton]; dsimp only; omega)
    refine ⟨l', g', ?_, hlog', ?_, ?_, ?_, ?_, ?_⟩
    · rw [List.range'_succ, List.map_cons, run, ha₁]
      exact hrun
    · exact congrArg (fun x : Link => { x with tx := l.tx, up := l.up, firsts := l.firsts }) hframe
    · rw [hup', hup, List.range'_succ, List.map_cons, List.append_assoc]
      rfl
    · rw [hfirsts', hfirsts, List.range'_succ, List.map_cons, List.append_assoc]
      rfl
    · rw [hA']
      omega
    · rw [hI', hI, List.append_assoc, List.range'_succ]
      rfl

end Link
end ReliableUdp
