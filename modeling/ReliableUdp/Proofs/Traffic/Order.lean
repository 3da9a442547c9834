import ReliableUdp.Proofs.Traffic.Runs

/-!
# First sends keep the order of the queues

A piece is held back only when its kind is blocked to the end of the drain, so along a run the
first sends of a kind from a queue are the pieces of its messages in queue order
(`Act.InOrder`), numbered 0, 1, 2, … by type (`Act.Numbers`).
-/

namespace ReliableUdp

/-! ## Pieces -/

namespace Queued

variable {size : Nat}

theorem Pieces.kind {m : Queued} {ps : List Queued} (h : m.Pieces size ps) : ∀ q ∈ ps, q.kind = m.kind := by
  rcases h with rfl | ⟨-, g, rs, -, rfl⟩
  · simp
  · intro q hq
    obtain ⟨r, -, rfl⟩ := List.mem_map.1 hq
    rfl

theorem Pieces.of_fragment {m : Queued} {ps : List Queued} (hf : m.fragment ≠ none) (h : m.Pieces size ps) :
    ps = [m] :=
  h.resolve_right fun ⟨hn, _⟩ => hf hn

theorem flatten_of_fragments {fs : List Queued} {pss : List (List Queued)} (hs : List.Forall₂ (Pieces size) fs pss)
    (hf : ∀ f ∈ fs, f.fragment ≠ none) : pss.flatten = fs := by
  induction hs with
  | nil => rfl
  | cons h _ ih =>
    rw [List.flatten_cons, h.of_fragment (hf _ List.mem_cons_self), ih fun f hm => hf f (List.mem_cons_of_mem _ hm)]
    rfl

theorem Pieces.refine {m : Queued} {ps : List Queued} {pss : List (List Queued)} (h : m.Pieces size ps)
    (hs : List.Forall₂ (Pieces size) ps pss) : m.Pieces size pss.flatten := by
  rcases h with rfl | ⟨hn, g, rs, hr, rfl⟩
  · obtain ⟨qs, rfl⟩ : ∃ qs, pss = [qs] := by
      cases hs with
      | cons _ hnil =>
        cases hnil
        exact ⟨_, rfl⟩
    cases hs with
    | cons hq _ => simpa using hq
  · have hfr : ∀ f ∈ rs.map (fun r => { m with fragment := some r }), f.fragment ≠ none := by
      intro f hf
      obtain ⟨r, -, rfl⟩ := List.mem_map.1 hf
      nofun
    rw [flatten_of_fragments hs hfr]
    exact .inr ⟨hn, g, rs, hr, rfl⟩

theorem Expands.nil : Expands size [] [] := ⟨[], .nil, rfl⟩

theorem Expands.refl (q : List Queued) : Expands size q q := by
  induction q with
  | nil => exact .nil
  | cons m q ih => simpa using Expands.cons (Or.inl rfl : m.Pieces size [m]) ih

theorem Expands.trans {a b c : List Queued} (h₁ : Expands size a b) (h₂ : Expands size b c) : Expands size a c := by
  obtain ⟨pss, hall, rfl⟩ := h₁
  induction hall generalizing c with
  | nil =>
    obtain ⟨qss, hq, rfl⟩ := h₂
    cases hq
    exact .nil
  | @cons m ps ms pss hm _ ih =>
    obtain ⟨qss, hq, rfl⟩ := h₂
    rw [List.flatten_cons] at hq
    -- the expansion of the pieces of `m`, then that of the rest
    have hl := List.forall₂_take ps.length hq
    have hr := List.forall₂_drop ps.length hq
    rw [List.take_left] at hl
    rw [List.drop_left] at hr
    rw [← List.take_append_drop ps.length qss, List.flatten_append]
    exact Expands.cons (hm.refine hl) (ih ⟨_, hr, rfl⟩)

theorem Expands.filter {q ps : List Queued} (h : Expands size q ps) (k : Kind) :
    Expands size (q.filter (·.kind == k)) (ps.filter (·.kind == k)) := by
  obtain ⟨pss, hall, rfl⟩ := h
  induction hall with
  | nil => exact .nil
  | @cons m ps ms pss hm _ ih =>
    rw [List.flatten_cons, List.filter_append, List.filter_cons]
    by_cases hk : m.kind = k
    · have hps : ps.filter (·.kind == k) = ps := List.filter_eq_self.2 fun q hq => by simp [hm.kind q hq, hk]
      rw [if_pos (by simp [hk]), hps]
      exact Expands.cons hm ih
    · have hps : ps.filter (·.kind == k) = [] := List.filter_eq_nil_iff.2 fun q hq => by simp [hm.kind q hq, hk]
      rw [if_neg (by simp [hk]), hps, List.nil_append]
      exact ih

end Queued

/-! ## Within one drain -/

namespace Outcome

def HeldLast (k : Kind) : List Outcome → Prop
  | [] => True
  | sent _ :: os => HeldLast k os
  | held m :: os => (m.kind = k → ∀ d ∈ dispatches os, d.piece.kind ≠ k) ∧ HeldLast k os

variable {k : Kind}

theorem HeldLast.append {os os' : List Outcome} (h : HeldLast k (os ++ os')) : HeldLast k os ∧ HeldLast k os' := by
  induction os with
  | nil => exact ⟨trivial, h⟩
  | cons o os ih =>
    cases o with
    | sent d => exact ih h
    | held m =>
      obtain ⟨h₁, h₂⟩ := h
      exact ⟨⟨fun hk d hd => h₁ hk d (by simp [hd]), (ih h₂).1⟩, (ih h₂).2⟩

theorem HeldLast.split {os : List Outcome} (h : HeldLast k os) :
    (os.map piece).filter (·.kind == k) =
      ((dispatches os).map Dispatch.piece).filter (·.kind == k) ++ (heldBack os).filter (·.kind == k) := by
  induction os with
  | nil => rfl
  | cons o os ih =>
    cases o with
    | sent d =>
      simp only [List.map_cons, piece, dispatches_sent, heldBack_sent, List.filter_cons, ih h]
      split <;> simp
    | held m =>
      simp only [List.map_cons, piece, dispatches_held, heldBack_held, List.filter_cons, ih h.2]
      by_cases hk : m.kind = k
      · -- nothing of kind `k` is sent after `m`
        have hnone : ((dispatches os).map Dispatch.piece).filter (·.kind == k) = [] :=
          List.filter_eq_nil_iff.2 fun q hq => by
            obtain ⟨d, hd, rfl⟩ := List.mem_map.1 hq
            simpa using h.1 hk d hd
        simp [hk, hnone]
      · simp [hk]

end Outcome

namespace Connection.Drains

variable {s : Settings} {now : Nat} {c c' : Connection} {os : List Outcome}

theorem no_dispatch {k : Kind} (h : Drains s now c os c') (hb : c.Blocked s k) :
    ∀ d ∈ Outcome.dispatches os, d.piece.kind ≠ k := by
  induction h with
  | nil => simp
  | held _ _ _ ih => exact ih hb
  | sent d hc hs _ ih =>
    intro d' hd'
    rcases List.mem_cons.1 hd' with rfl | hd'
    · -- a kind that is clear is not blocked
      rintro rfl
      rcases hb with ht | hf
      · rw [hc.1] at ht
        cases ht
      · rw [hc.2] at hf
        cases hf
    · exact ih (Sends.blocked hc hs hb) d' hd'
  | regroup _ _ ih => exact ih hb

theorem heldLast (h : Drains s now c os c') (k : Kind) : Outcome.HeldLast k os := by
  induction h with
  | nil => trivial
  | held m hb hd ih =>
    refine ⟨fun hk => ?_, ih⟩
    subst hk
    exact hd.no_dispatch hb
  | sent _ _ _ _ ih => exact ih
  | regroup _ _ ih => exact ih

theorem headers (h : Drains s now c os c') :
    ∀ d ∈ Outcome.dispatches os, d.header.kind = d.piece.kind ∧ d.header.seq = d.seq := by
  induction h with
  | nil => simp
  | held _ _ _ ih => exact ih
  | sent d _ hs _ ih =>
    obtain ⟨w₁, w, t, -, hh, -, -⟩ := hs
    intro d' hd'
    rcases List.mem_cons.1 hd' with rfl | hd'
    · rw [(Header.ofUser_eq hh).1]
      exact ⟨rfl, rfl⟩
    · exact ih d' hd'
  | regroup _ _ ih => exact ih

end Connection.Drains

/-! ## Numbers -/

theorem Kind.eq_of_toRaw_eq {k k' : Kind} (hk : k.Valid) (hk' : k'.Valid) (h : k.toRaw = k'.toRaw) : k = k' :=
  Option.some.inj ((Kind.ofRaw?_toRaw k hk).symm.trans (h ▸ Kind.ofRaw?_toRaw k' hk'))

theorem Queued.Sendable.valid {q : Queued} (h : q.Sendable) : q.kind.Valid := by
  obtain ⟨⟨m, ch, hk, hch⟩, -⟩ := h
  rw [hk]
  exact hch

def Dispatch.ofKind (k : Kind) (N : List Dispatch) : List Dispatch := N.filter (·.piece.kind == k)

/-- The next numbers `next` after the first sends `N`: for each type with numbers, the next
number is the count of its first sends, and those carry 0, 1, 2, … in order. -/
structure Numbers (next : Array Seq) (N : List Dispatch) : Prop where
  size : next.size = Kind.count
  next : ∀ k : Kind, k.Valid → k.hasSeq = true → next.getD k.toRaw default = Seq.ofNat (Dispatch.ofKind k N).length
  seqs : ∀ k : Kind, k.hasSeq = true →
    (Dispatch.ofKind k N).map (·.seq) = (List.range (Dispatch.ofKind k N).length).map fun i => some (Seq.ofNat i)

theorem Numbers.fresh : Numbers (Array.replicate Kind.count default) [] where
  size := Array.size_replicate
  next k hk _ := by
    have hlt : k.toRaw < Kind.count := by
      cases k with
      | control | unconnected => decide
      | user m ch => exact Kind.toRaw_user_lt hk
    simp [Dispatch.ofKind, Array.getD_eq_getD_getElem?, hlt]
    rfl
  seqs _ _ := rfl

theorem Numbers.send {w w₁ : SendWindow} {N : List Dispatch} {d : Dispatch} (hn : Numbers w.nextSeq N)
    (hd : d.piece.Sendable) (ha : w.assign d.piece.kind = .ok (d.seq, w₁)) : Numbers w₁.nextSeq (N ++ [d]) := by
  have hraw := hd.toRaw_lt
  have hv := hd.valid
  have hother : ∀ k, d.piece.kind ≠ k → Dispatch.ofKind k (N ++ [d]) = Dispatch.ofKind k N := by
    intro k hk
    simp [Dispatch.ofKind, List.filter_append, hk]
  have hsame : Dispatch.ofKind d.piece.kind (N ++ [d]) = Dispatch.ofKind d.piece.kind N ++ [d] := by
    simp [Dispatch.ofKind, List.filter_append]
  rcases SendWindow.assign_cases ha with ⟨hc, hseq, rfl⟩ | ⟨raw, hc, hs, hseq, rfl⟩
  · -- a type without numbers leaves them all
    have hno : d.piece.kind.hasSeq = false := by
      rw [Kind.carriesSeq_eq (by omega)] at hc
      exact Except.ok.inj hc
    have hne : ∀ k : Kind, k.hasSeq = true → d.piece.kind ≠ k := fun k hks he => by
      rw [he, hks] at hno
      cases hno
    refine ⟨hn.size, fun k hk hks => ?_, fun k hks => ?_⟩
    · rw [hother k (hne k hks)]
      exact hn.next k hk hks
    · rw [hother k (hne k hks)]
      exact hn.seqs k hks
  · -- a type with numbers takes the next one
    have hr : raw = d.piece.kind.toRaw := by
      rw [Kind.slot_of_lt hraw] at hs
      exact (Except.ok.inj hs).symm
    subst hr
    refine ⟨by simp [hn.size], fun k hk hks => ?_, fun k hks => ?_⟩
    · by_cases he : d.piece.kind = k
      · subst he
        rw [hsame, SendWindow.getD_setIfInBounds_self (by rw [hn.size]; exact hraw), hn.next _ hv hks,
          Seq.ofNat_next, List.length_append, List.length_singleton]
      · rw [hother k he, SendWindow.getD_setIfInBounds_ne fun h => he (Kind.eq_of_toRaw_eq hv hk h),
          hn.next k hk hks]
    · by_cases he : d.piece.kind = k
      · subst he
        rw [hsame, List.map_append, hn.seqs _ hks, List.map_cons, List.map_nil, hseq, hn.next _ hv hks,
          List.length_append, List.length_singleton, List.range_succ, List.map_append, List.map_cons, List.map_nil]
      · rw [hother k he]
        exact hn.seqs k hks

theorem Connection.Drains.numbers {s : Settings} {now : Nat} {c c' : Connection} {os : List Outcome}
    (h : Connection.Drains s now c os c') (hp : ∀ o ∈ os, o.piece.Sendable) {N : List Dispatch}
    (hn : Numbers c.sendWindow.nextSeq N) : Numbers c'.sendWindow.nextSeq (N ++ Outcome.dispatches os) := by
  induction h generalizing N with
  | nil => simpa using hn
  | held m _ _ ih => exact ih (fun o ho => hp o (List.mem_cons_of_mem _ ho)) hn
  | sent d _ hs _ ih =>
    obtain ⟨w₁, w, t, ha, -, -, rfl⟩ := hs
    have h₁ : Numbers (w₁.keep d.piece d.seq t).nextSeq (N ++ [d]) := by
      rw [SendWindow.nextSeq_keep]
      exact hn.send (hp (.sent d) List.mem_cons_self) ha
    simpa using ih (fun o ho => hp o (List.mem_cons_of_mem _ ho)) h₁
  | regroup _ _ ih => exact ih hp hn

/-! ## Along a run -/

def Priority.pick {α : Type} : Priority → α → α → α → α
  | .high, h, _, _ => h
  | .normal, _, n, _ => n
  | .low, _, _, l => l

namespace Act

def firsts : Act → List (Dispatch × Priority)
  | drain _ oh on ol => (Outcome.dispatches oh).map (·, .high) ++ (Outcome.dispatches on).map (·, .normal) ++
      (Outcome.dispatches ol).map (·, .low)
  | _ => []

def firstSends (as : List Act) : List Dispatch := (as.flatMap firsts).map (·.1)

def queuedAt (k : Kind) (p : Priority) (a : Act) : List Queued :=
  (a.enqueued.filter fun q => q.1.kind == k && q.2 == p).map (·.1)

def sentFrom (k : Kind) (p : Priority) (a : Act) : List Queued :=
  (a.firsts.filter fun d => d.1.piece.kind == k && d.2 == p).map (·.1.piece)

theorem sentFrom_drain (k : Kind) (p : Priority) (now : Nat) (oh on ol : List Outcome) :
    (drain now oh on ol).sentFrom k p = ((Outcome.dispatches (p.pick oh on ol)).map Dispatch.piece).filter (·.kind == k) := by
  cases p <;> simp [sentFrom, firsts, Priority.pick, List.filter_map, Function.comp_def, Bool.beq_eq_decide_eq]

theorem firsts_drain (now : Nat) (oh on ol : List Outcome) :
    (drain now oh on ol).firsts.map (·.1) = Outcome.dispatches (oh ++ on ++ ol) := by
  simp [firsts, Function.comp_def]

variable {s : Settings} {a : Act} {c c' : Connection} {k : Kind} {p : Priority} {E F : List Queued}

/-- What the queue of priority `p` holds of kind `k` after the messages `E` were queued and the
pieces `F` sent first: `E` expands into `F`, then the pieces a close dropped, then what the queue
holds; only a closed connection has dropped any. -/
def InOrder (s : Settings) (k : Kind) (p : Priority) (c : Connection) (E F : List Queued) : Prop :=
  ∃ D, (D ≠ [] → c.status = .disconnected) ∧
    Queued.Expands s.maxPayload E (F ++ D ++ (c.traffic.queue p).filter (·.kind == k))

theorem InOrder.congr (h : InOrder s k p c E F) (hq : c'.traffic.queue p = c.traffic.queue p)
    (hs : c'.status = c.status) : InOrder s k p c' E F := by
  obtain ⟨D, hD, hE⟩ := h
  exact ⟨D, hs ▸ hD, hq ▸ hE⟩

theorem InOrder.expands (h : InOrder s k p c E F) (hs : c.status ≠ .disconnected) :
    Queued.Expands s.maxPayload E (F ++ (c.traffic.queue p).filter (·.kind == k)) := by
  obtain ⟨D, hD, hE⟩ := h
  have hnil : D = [] := by
    by_contra hne
    exact hs (hD hne)
  simpa [hnil] using hE

theorem InOrder.of_expands (h : Queued.Expands s.maxPayload E (F ++ (c.traffic.queue p).filter (·.kind == k))) :
    InOrder s k p c E F :=
  ⟨[], fun hne => absurd rfl hne, by simpa using h⟩

theorem Does.inOrder (ha : a.Does s c c') (h : InOrder s k p c E F) :
    InOrder s k p c' (E ++ a.queuedAt k p) (F ++ a.sentFrom k p) := by
  cases a with
  | other ms =>
    have ht := ha.2.2
    simpa [queuedAt, sentFrom, enqueued, firsts] using
      h.congr (by rw [ht]) ha.status
  | enter st =>
    obtain ⟨hc, -, -, ht⟩ := ha
    have hq : c'.traffic.queue p = c.traffic.queue p := by
      rw [ht]
      cases p <;> rfl
    refine InOrder.of_expands ?_
    simpa [queuedAt, sentFrom, enqueued, firsts, hq] using h.expands hc
  | enqueue q p' =>
    have hst : c'.status = c.status := ha.status
    obtain ⟨-, -, -, ht⟩ := ha
    obtain ⟨D, hD, hE⟩ := h
    refine ⟨D, hst ▸ hD, ?_⟩
    rw [ht, Traffic.queue_enqueue]
    by_cases hp : p' = p
    · subst hp
      rw [if_pos rfl, List.filter_append]
      by_cases hk : q.kind = k
      · -- the message joins the end of its queue
        subst hk
        simpa [queuedAt, sentFrom, enqueued, firsts, List.append_assoc] using hE.append (Queued.Expands.refl [q])
      · simpa [queuedAt, sentFrom, enqueued, firsts, hk] using hE
    · rw [if_neg hp]
      simpa [queuedAt, sentFrom, enqueued, firsts, hp] using hE
  | drain now oh on ol =>
    obtain ⟨hs, hh, hn, hl, -, c₁, hd, hc'⟩ := ha
    -- the queue of priority `p` went out as the pieces of its outcomes
    have hx : Queued.Expands s.maxPayload (c.traffic.queue p) ((p.pick oh on ol).map Outcome.piece) := by
      cases p
      · exact hh
      · exact hn
      · exact hl
    have hlast : Outcome.HeldLast k (p.pick oh on ol) := by
      obtain ⟨h₁₂, h₃⟩ := (hd.heldLast k).append
      obtain ⟨h₁, h₂⟩ := h₁₂.append
      cases p
      · exact h₁
      · exact h₂
      · exact h₃
    have hopen : c.status ≠ .disconnected := by
      rcases hs with hs | hs <;> rw [hs] <;> decide
    have hq : c'.traffic.queue p = Outcome.heldBack (p.pick oh on ol) := by
      rw [hc']
      cases p <;> rfl
    have hnone : (drain now oh on ol).queuedAt k p = [] := rfl
    refine InOrder.of_expands ?_
    rw [hq, hnone, List.append_nil, sentFrom_drain, List.append_assoc, ← hlast.split]
    exact (h.expands hopen).trans ((Queued.Expands.refl F).append (hx.filter k))
  | flush parts acks =>
    have ht := ha.2.2.2.2
    simpa [queuedAt, sentFrom, enqueued, firsts] using
      h.congr (by rw [ht]; cases p <;> rfl) ha.status
  | close =>
    have hst : c'.status = .disconnected := ha.status
    obtain ⟨-, -, ht⟩ := ha
    obtain ⟨D, -, hE⟩ := h
    have hq : c'.traffic.queue p = [] := by
      rw [ht]
      cases p <;> rfl
    -- the queue is dropped
    refine ⟨D ++ (c.traffic.queue p).filter (·.kind == k), fun _ => hst, ?_⟩
    simpa [queuedAt, sentFrom, enqueued, firsts, hq, List.append_assoc] using hE
  | intake hd =>
    have ht := ha.2.2.2
    simpa [queuedAt, sentFrom, enqueued, firsts] using
      h.congr (by rw [ht]; cases p <;> rfl) ha.status

theorem History.inOrder {as : List Act} (h : History s c as c') (hi : InOrder s k p c E F) :
    InOrder s k p c' (E ++ as.flatMap (queuedAt k p)) (F ++ as.flatMap (sentFrom k p)) := by
  induction h generalizing E F with
  | nil => simpa using hi
  | act ha _ ih => simpa [List.append_assoc] using ih (ha.inOrder hi)
  | take _ ih => exact ih (hi.congr (by rw [(Connection.takeDatagrams_traffic _).1]) rfl)

theorem Does.numbers {N : List Dispatch} (ha : a.Does s c c') (hn : Numbers c.sendWindow.nextSeq N) :
    Numbers c'.sendWindow.nextSeq (N ++ a.firsts.map (·.1)) := by
  -- every act but a drain keeps the next numbers
  have hkeep : c'.traffic.nextSeq = c.traffic.nextSeq → a.firsts = [] →
      Numbers c'.sendWindow.nextSeq (N ++ a.firsts.map (·.1)) := fun ht hf => by
    have hns : c'.sendWindow.nextSeq = c.sendWindow.nextSeq := ht
    rw [hf, List.map_nil, List.append_nil, hns]
    exact hn
  cases a with
  | drain now oh on ol =>
    obtain ⟨-, -, -, -, hp, c₁, hd, rfl⟩ := ha
    rw [firsts_drain]
    exact hd.numbers hp hn
  | other ms => exact hkeep (by rw [ha.2.2]) rfl
  | enter st => exact hkeep (by rw [ha.2.2.2]) rfl
  | enqueue q p => exact hkeep (by rw [ha.2.2.2, Traffic.enqueue_nextSeq]) rfl
  | flush parts acks => exact hkeep (by rw [ha.2.2.2.2]) rfl
  | close => exact hkeep (by rw [ha.2.2]) rfl
  | intake h => exact hkeep (by rw [ha.2.2.2]) rfl

theorem History.numbers {as : List Act} {N : List Dispatch} (h : History s c as c')
    (hn : Numbers c.sendWindow.nextSeq N) : Numbers c'.sendWindow.nextSeq (N ++ firstSends as) := by
  induction h generalizing N with
  | nil => simpa [firstSends] using hn
  | act ha _ ih => simpa [firstSends, List.append_assoc] using ih (ha.numbers hn)
  | take _ ih => exact ih hn

theorem Does.headers (ha : a.Does s c c') : ∀ d ∈ a.firsts.map (·.1), d.header.kind = d.piece.kind ∧ d.header.seq = d.seq := by
  cases a with
  | drain now oh on ol =>
    obtain ⟨-, -, -, -, -, c₁, hd, -⟩ := ha
    rw [firsts_drain]
    exact hd.headers
  | _ => simp [firsts]

theorem History.headers {as : List Act} (h : History s c as c') :
    ∀ d ∈ firstSends as, d.header.kind = d.piece.kind ∧ d.header.seq = d.seq := by
  induction h with
  | nil => simp [firstSends]
  | act ha _ ih =>
    intro d hd
    simp only [firstSends, List.flatMap_cons, List.map_append, List.mem_append] at hd
    rcases hd with hd | hd
    · exact ha.headers d hd
    · exact ih d hd
  | take _ ih => exact ih

theorem firstSends_sublist (as : List Act) : List.Sublist ((firstSends as).map Dispatch.msg) (as.flatMap msgs) := by
  induction as with
  | nil => exact List.Sublist.slnil
  | cons a as ih =>
    simp only [firstSends, List.flatMap_cons, List.map_append] at ih ⊢
    refine List.Sublist.append ?_ ih
    cases a with
    | drain now oh on ol => rw [firsts_drain]; rfl
    | _ => exact List.nil_sublist _

end Act

/-- Along every run, the acts of the connection since it was created write its wire and queue
what the application sent. For each kind and priority, the pieces first sent from that queue are
the pieces of the messages queued there, in the order they were queued, a message cut into
fragments giving them in index order; the first sends are written in that order. The first sends
of each type with numbers carry 0, 1, 2, … in the space of numbers. -/
theorem first_sends_keep_queue_order {o : Origin} {sh : Shared} {ts : List Turn} {x : Snap}
    (h : Run o sh ts x) :
    ∃ c₀ as, c₀.traffic = Traffic.fresh ∧ Act.History sh.settings c₀ as x.conn ∧ x.wire = as.flatMap Act.msgs ∧
      (as.flatMap Act.enqueued).map (fun q => (q.1.kind, q.2, q.1.payload.data)) = ts.flatMap Turn.queues ∧
      List.Sublist ((Act.firstSends as).map Dispatch.msg) x.wire ∧
      (∀ k p, ∃ R, Queued.Expands sh.settings.maxPayload (as.flatMap (Act.queuedAt k p))
        (as.flatMap (Act.sentFrom k p) ++ R)) ∧
      ∀ k, k.hasSeq = true → ((Act.firstSends as).filter (·.header.kind == k)).map (·.header.seq) =
        (List.range ((Act.firstSends as).filter (·.header.kind == k)).length).map fun i => some (Seq.ofNat i) := by
  obtain ⟨c₀, as, htr, -, hh, hwire, -, hq⟩ := h.history
  refine ⟨c₀, as, htr, hh, hwire, hq, hwire ▸ Act.firstSends_sublist as, fun k p => ?_, fun k hk => ?_⟩
  · -- nothing is queued when the connection is created
    have h₀ : Act.InOrder sh.settings k p c₀ [] [] := by
      refine Act.InOrder.of_expands ?_
      have hq₀ : c₀.traffic.queue p = [] := by
        rw [htr]
        cases p <;> rfl
      rw [hq₀]
      exact .nil
    obtain ⟨D, -, hE⟩ := hh.inOrder h₀
    exact ⟨D ++ (x.conn.traffic.queue p).filter (·.kind == k), by simpa [List.append_assoc] using hE⟩
  · have h₀ : Numbers c₀.sendWindow.nextSeq [] := by
      have hn : c₀.sendWindow.nextSeq = Array.replicate Kind.count default := congrArg Traffic.nextSeq htr
      rw [hn]
      exact Numbers.fresh
    have hnum := (hh.numbers h₀).seqs k hk
    have hhd := hh.headers
    -- a first send is written under its own kind and number
    have hfilter : (Act.firstSends as).filter (·.header.kind == k) = Dispatch.ofKind k (Act.firstSends as) :=
      List.filter_congr fun d hd => by rw [(hhd d hd).1]
    have hseq : (Dispatch.ofKind k (Act.firstSends as)).map (·.header.seq) =
        (Dispatch.ofKind k (Act.firstSends as)).map (·.seq) :=
      List.map_congr_left fun d hd => (hhd d (List.mem_of_mem_filter hd)).2
    rw [hfilter, hseq]
    simpa using hnum

theorem first_sends_keep_queue_order_window_one :
    ∃ ts x, Run (.outgoing 0 (.localhost 6000) 1200 [7] 0) (Shared.create { appId := "app", windowSize := 1 }) ts x ∧
      ts.map Turn.op = [.heartbeat 0,
        .receive { kind := .control, control := some .connectResponse, payloadLen := 1 } (Wire.putBytes []) 1,
        .request (.send .reliableOrdered 0 [1] .normal), .request (.send .reliableOrdered 0 [2] .normal),
        .heartbeat 2] ∧
      ∃ c₀ as, c₀.traffic = Traffic.fresh ∧
        Act.History (Shared.create { appId := "app", windowSize := 1 }).settings c₀ as x.conn ∧
        x.wire = as.flatMap Act.msgs ∧
        (as.flatMap Act.enqueued).map (fun q => (q.1.kind, q.2, q.1.payload.data)) = ts.flatMap Turn.queues ∧
        List.Sublist ((Act.firstSends as).map Dispatch.msg) x.wire ∧
        (∀ k p, ∃ R, Queued.Expands (Shared.create { appId := "app", windowSize := 1 }).settings.maxPayload
          (as.flatMap (Act.queuedAt k p)) (as.flatMap (Act.sentFrom k p) ++ R)) ∧
        ∀ k, k.hasSeq = true → ((Act.firstSends as).filter (·.header.kind == k)).map (·.header.seq) =
          (List.range ((Act.firstSends as).filter (·.header.kind == k)).length).map fun i => some (Seq.ofNat i) := by
  obtain ⟨ts, x, hr, hops, -⟩ := Run.of_runAll (.outgoing 0 (.localhost 6000) 1200 [7] 0)
    [.heartbeat 0, .receive { kind := .control, control := some .connectResponse, payloadLen := 1 } (Wire.putBytes []) 1,
      .request (.send .reliableOrdered 0 [1] .normal), .request (.send .reliableOrdered 0 [2] .normal), .heartbeat 2]
    (Shared.create { appId := "app", windowSize := 1 }) (fun _ => ()) () (by decide +kernel)
  exact ⟨ts, x, hr, hops, first_sends_keep_queue_order hr⟩

end ReliableUdp
