import ReliableUdp.Proofs.ResendPass

/-!
# Every stored message lives by its resend schedule

A stored message is resent when due until it was sent `maxSends` times, then given up, unless an
acknowledgement or a clear ends it (`Schedule`, `Life`). Messages are followed through a session
by labels, and every call keeps their deeds on schedule (`Follows.call`).
-/

namespace ReliableUdp

/-- What one call does to one stored message. -/
inductive Deed where
  | sent (now rtt : Nat)
  | waited (now : Nat)
  | resent (now rtt : Nat) (msg : Queued) (seq : Seq)
  | dropped (now : Nat) (msg : Queued)
  | acked
  | cleared

namespace Deed

def transmits : Deed → Bool
  | sent .. | resent .. => true
  | _ => false

def ends : Deed → Bool
  | dropped .. | acked | cleared => true
  | _ => false

def resentCall : Deed → Option (Queued × Seq)
  | resent _ _ m s => some (m, s)
  | _ => none

def droppedMsg : Deed → Option Queued
  | dropped _ m => some m
  | _ => none

end Deed

/-- The deeds a stored message may see from a state in which it was sent `n` times and is due
again at `due`: each resend pass before `due` passes it over; the first at or after `due` sends
it again, due one delay later, or gives it up once it was sent `maxSends` times; an
acknowledgement or a clear ends it. -/
inductive Schedule (r : ResendSchedule) : Nat → Nat → List Deed → Prop
  | stay (n due : Nat) : Schedule r n due []
  | wait {n due now : Nat} {rest : List Deed} :
      now < due → Schedule r n due rest → Schedule r n due (.waited now :: rest)
  | resend {n due now rtt d : Nat} {m : Queued} {seq : Seq} {rest : List Deed} :
      due ≤ now → n < r.maxSends → r.delay (n + 1) rtt = .ok d →
      Schedule r (n + 1) (now + d) rest → Schedule r n due (.resent now rtt m seq :: rest)
  | drop {n due now : Nat} {m : Queued} :
      due ≤ now → r.maxSends ≤ n → Schedule r n due [.dropped now m]
  | ack (n due : Nat) : Schedule r n due [.acked]
  | clear (n due : Nat) : Schedule r n due [.cleared]

/-- The life of one message: nothing, or its first send at `now`, due again one delay later, and
then its schedule. -/
inductive Life (r : ResendSchedule) : List Deed → Prop
  | unused : Life r []
  | sent {now rtt d : Nat} {rest : List Deed} :
      r.delay 1 rtt = .ok d → Schedule r 1 (now + d) rest → Life r (.sent now rtt :: rest)

namespace Schedule

variable {r : ResendSchedule} {n due : Nat} {ds : List Deed}

theorem transmits_le (h : Schedule r n due ds) (hn : n ≤ r.maxSends) :
    n + ds.countP Deed.transmits ≤ r.maxSends := by
  induction h with
  | stay => simpa using hn
  | wait _ _ ih => simpa [Deed.transmits] using ih hn
  | resend _ hlt _ _ ih =>
    have := ih hlt
    simp only [List.countP_cons, Deed.transmits, if_true]
    omega
  | drop | ack | clear => simpa [Deed.transmits] using hn

theorem ends_last (h : Schedule r n due ds) :
    ∀ pre d post, ds = pre ++ d :: post → d.ends = true → post = [] := by
  induction h with
  | stay => intro pre d post h; simp at h
  | wait _ _ ih | resend _ _ _ _ ih =>
    intro pre d post h hd
    cases pre with
    | nil => cases h; simp [Deed.ends] at hd
    | cons x pre => exact ih pre d post (List.cons.inj h).2 hd
  | drop | ack | clear =>
    intro pre d post h _
    cases pre with
    | nil => exact (List.cons.inj h).2.symm
    | cons x pre => simp at h

theorem dropped_after (h : Schedule r n due ds) (hn : n ≤ r.maxSends) :
    ∀ pre now m post, ds = pre ++ .dropped now m :: post →
      n + pre.countP Deed.transmits = r.maxSends := by
  induction h with
  | stay => intro pre now m post h; simp at h
  | wait _ _ ih =>
    intro pre now m post h
    cases pre with
    | nil => cases h
    | cons x pre =>
      obtain ⟨rfl, h'⟩ := List.cons.inj h
      simpa [Deed.transmits] using ih hn pre now m post h'
  | resend _ hlt _ _ ih =>
    intro pre now m post h
    cases pre with
    | nil => cases h
    | cons x pre =>
      obtain ⟨rfl, h'⟩ := List.cons.inj h
      have := ih hlt pre now m post h'
      simp only [List.countP_cons, Deed.transmits, if_true]
      omega
  | drop _ hge =>
    intro pre now m post h
    cases pre with
    | nil => simpa using Nat.le_antisymm hn hge
    | cons x pre => simp at h
  | ack | clear =>
    intro pre now m post h
    cases pre with
    | nil => cases h
    | cons x pre => simp at h

end Schedule

namespace Life

variable {r : ResendSchedule} {ds : List Deed}

theorem transmits_le (h : Life r ds) (hr : 0 < r.maxSends) : ds.countP Deed.transmits ≤ r.maxSends := by
  cases h with
  | unused => simp
  | sent _ hs =>
    have := hs.transmits_le hr
    simp only [List.countP_cons, Deed.transmits, if_true]
    omega

theorem ends_last (h : Life r ds) : ∀ pre d post, ds = pre ++ d :: post → d.ends = true → post = [] := by
  cases h with
  | unused => intro pre d post h; simp at h
  | sent _ hs =>
    intro pre d post h hd
    cases pre with
    | nil => cases h; simp [Deed.ends] at hd
    | cons x pre => exact hs.ends_last pre d post (List.cons.inj h).2 hd

theorem dropped_after (h : Life r ds) (hr : 0 < r.maxSends) :
    ∀ pre now m post, ds = pre ++ .dropped now m :: post → pre.countP Deed.transmits = r.maxSends := by
  cases h with
  | unused => intro pre now m post h; simp at h
  | sent _ hs =>
    intro pre now m post h
    cases pre with
    | nil => cases h
    | cons x pre =>
      obtain ⟨rfl, h'⟩ := List.cons.inj h
      have := hs.dropped_after hr pre now m post h'
      simp only [List.countP_cons, Deed.transmits, if_true]
      omega

end Life

def Stored.deedAt (now : Nat) (r : ResendSchedule) (rtt : Nat) (s : Stored) : Deed :=
  if now < s.nextResend then .waited now
  else if s.sends < r.maxSends then .resent now rtt s.msg s.seq
  else .dropped now s.msg

namespace SendWindow

def tagged (w : SendWindow) (τ : Nat → List Nat) : List (Nat × Stored) :=
  (List.range Kind.count).flatMap fun raw => (τ raw).zip (w.storedOf raw)

def keptLabels (now : Nat) (r : ResendSchedule) (ls : List Nat) (ss : List Stored) : List Nat :=
  ((ls.zip ss).filter (keepsAt now r ·.2)).map (·.1)

def retag (r : ResendSchedule) (w : SendWindow) (τ : Nat → List Nat) (j : Nat) :
    WindowCall → Nat → List Nat
  | .assign _ => τ
  | .store m _ _ _ =>
    match m.kind.slot with
    | .ok raw => Function.update τ raw (τ raw ++ [j])
    | .error _ => τ
  | .resend now _ =>
    if w.passes now then fun raw => keptLabels now r (τ raw) (w.storedOf raw)
    else τ
  | .ack seq raw =>
    if raw < Kind.count then
      match (w.storedOf raw).findIdx? (·.seq == seq) with
      | some i => Function.update τ raw ((τ raw).eraseIdx i)
      | none => τ
    else τ
  | .clear => fun _ => []

def deeds (r : ResendSchedule) (w : SendWindow) (τ : Nat → List Nat) (j : Nat) :
    WindowCall → List (Nat × Deed)
  | .assign _ => []
  | .store _ _ now rtt => [(j, .sent now rtt)]
  | .resend now rtt => (w.tagged τ).map fun x => (x.1, x.2.deedAt now r rtt)
  | .ack seq raw =>
    if raw < Kind.count then
      match (w.storedOf raw).findIdx? (·.seq == seq) with
      | some i => ((τ raw)[i]?).toList.map (·, .acked)
      | none => []
    else []
  | .clear => (w.tagged τ).map fun x => (x.1, .cleared)

def trace (r : ResendSchedule) : (Nat → List Nat) → Nat → List (SendWindow × WindowCall × ResendPass) →
    List (ResendPass × List (Nat × Deed))
  | _, _, [] => []
  | τ, j, (w, c, p) :: log => (p, w.deeds r τ j c) :: trace r (w.retag r τ j c) (j + 1) log

def select (ℓ : Nat) (ds : List (Nat × Deed)) : List Deed :=
  ds.filterMap fun d => if d.1 = ℓ then some d.2 else none

def history (r : ResendSchedule) (log : List (SendWindow × WindowCall × ResendPass)) (ℓ : Nat) :
    List Deed :=
  (trace r (fun _ => []) 0 log).flatMap fun x => select ℓ x.2


/-! ## Labels -/

variable {w : SendWindow}

theorem select_cons (ℓ : Nat) (d : Nat × Deed) (ds : List (Nat × Deed)) :
    select ℓ (d :: ds) = if d.1 = ℓ then d.2 :: select ℓ ds else select ℓ ds := by
  unfold select
  by_cases h : d.1 = ℓ <;> simp [h]

theorem select_append (ℓ : Nat) (ds ds' : List (Nat × Deed)) :
    select ℓ (ds ++ ds') = select ℓ ds ++ select ℓ ds' := by
  simp [select]

theorem select_map_of_not_mem {L : List (Nat × Stored)} {ℓ : Nat} (f : Stored → Deed)
    (h : ∀ s, (ℓ, s) ∉ L) : select ℓ (L.map fun x => (x.1, f x.2)) = [] := by
  induction L with
  | nil => rfl
  | cons x L ih =>
    rw [List.map_cons, select_cons, ih fun s hs => h s (List.mem_cons_of_mem _ hs)]
    have : x.1 ≠ ℓ := fun e => h x.2 (e ▸ List.mem_cons_self)
    simp [this]

theorem select_map_of_mem {L : List (Nat × Stored)} {ℓ : Nat} {s : Stored} (f : Stored → Deed)
    (hL : (L.map (·.1)).Nodup) (h : (ℓ, s) ∈ L) : select ℓ (L.map fun x => (x.1, f x.2)) = [f s] := by
  induction L with
  | nil => cases h
  | cons x L ih =>
    obtain ⟨hx, hL⟩ := List.nodup_cons.1 hL
    simp only at hx
    rw [List.map_cons, select_cons]
    rcases List.mem_cons.1 h with rfl | h
    · -- the label is the head's, and no later entry carries it
      rw [select_map_of_not_mem f fun s' hs' => hx (List.mem_map_of_mem (f := (·.1)) hs')]
      simp
    · have : x.1 ≠ ℓ := fun e => hx (by rw [e]; exact List.mem_map_of_mem (f := (·.1)) h)
      simp [this, ih hL h]

theorem eq_of_mem_of_nodup_fst {L : List (Nat × Stored)} {ℓ : Nat} {s s' : Stored}
    (hL : (L.map (·.1)).Nodup) (h : (ℓ, s) ∈ L) (h' : (ℓ, s') ∈ L) : s = s' := by
  induction L with
  | nil => cases h
  | cons x L ih =>
    obtain ⟨hx, hL⟩ := List.nodup_cons.1 hL
    simp only at hx
    rcases List.mem_cons.1 h with rfl | h <;> rcases List.mem_cons.1 h' with e | h'
    · exact (Prod.mk.inj e).2.symm
    · exact absurd (List.mem_map_of_mem (f := (·.1)) h') hx
    · rw [← e] at hx
      exact absurd (List.mem_map_of_mem (f := (·.1)) h) hx
    · exact ih hL h h'

theorem mem_tagged {τ : Nat → List Nat} {x : Nat × Stored} :
    x ∈ w.tagged τ ↔ ∃ raw < Kind.count, x ∈ (τ raw).zip (w.storedOf raw) := by
  simp [tagged]

/-- Labels are given one per stored message, distinct, and all below the number of the next
call. -/
structure Labelled (w : SendWindow) (τ : Nat → List Nat) (j : Nat) : Prop where
  len : ∀ raw, (τ raw).length = (w.storedOf raw).length
  nodup : ∀ raw, (τ raw).Nodup
  apart : ∀ raw raw', raw ≠ raw' → ∀ ℓ ∈ τ raw, ℓ ∉ τ raw'
  below : ∀ raw, ∀ ℓ ∈ τ raw, ℓ < j

namespace Labelled

variable {τ : Nat → List Nat} {j : Nat}

theorem fresh (n : Nat) : Labelled { window := n } (fun _ => []) 0 where
  len raw := by rw [storedOf, getD_replicate_nil]; rfl
  nodup _ := List.nodup_nil
  apart _ _ _ _ h := by cases h
  below _ _ h := by cases h

theorem keys_nodup (hl : Labelled w τ j) : ((w.tagged τ).map (·.1)).Nodup := by
  have hkeys : (w.tagged τ).map (·.1) = (List.range Kind.count).flatMap τ := by
    rw [tagged, List.map_flatMap]
    exact List.flatMap_congr fun raw _ => List.map_fst_zip (Nat.le_of_eq (hl.len raw))
  rw [hkeys, List.nodup_flatMap]
  refine ⟨fun raw _ => hl.nodup raw, List.Pairwise.imp ?_ List.nodup_range⟩
  intro a b hab ℓ ha hb
  exact hl.apart a b hab ℓ ha hb

theorem unique (hl : Labelled w τ j) {ℓ : Nat} {s s' : Stored} (h : (ℓ, s) ∈ w.tagged τ)
    (h' : (ℓ, s') ∈ w.tagged τ) : s = s' :=
  eq_of_mem_of_nodup_fst hl.keys_nodup h h'

theorem lt (hl : Labelled w τ j) {ℓ : Nat} {s : Stored} (h : (ℓ, s) ∈ w.tagged τ) : ℓ < j := by
  obtain ⟨raw, -, h⟩ := mem_tagged.1 h
  exact hl.below raw ℓ (List.of_mem_zip h).1

end Labelled


/-! ## What a call does to the labelled messages -/

theorem Span.after_ok {now d t : Nat} (h : Span.after now d = .ok t) : t = now + d := by
  unfold Span.after at h
  split at h
  · cases h
    rfl
  · cases h

namespace Passes

variable {now rtt : Nat} {r : ResendSchedule} {s : Stored} {o : Option Stored}

theorem keeps (h : Passes now r rtt s o) : keepsAt now r s = o.isSome := by
  cases h <;> simp [keepsAt] <;> omega

theorem det {o' : Option Stored} (h : Passes now r rtt s o) (h' : Passes now r rtt s o') : o = o' := by
  cases h with
  | wait hw => cases h' <;> first | rfl | omega
  | drop hd hm => cases h' <;> first | rfl | omega
  | resend hd hm hdl ht =>
    cases h' with
    | resend _ _ hdl' ht' =>
      rw [hdl] at hdl'
      cases hdl'
      rw [ht] at ht'
      cases ht'
      rfl
    | _ => omega

end Passes

theorem zip_passes {now rtt : Nat} {r : ResendSchedule} {ss : List Stored} {os : List (Option Stored)}
    (h : List.Forall₂ (Passes now r rtt) ss os) : ∀ {ls : List Nat}, ls.length = ss.length →
      (keptLabels now r ls ss).length = (os.filterMap id).length ∧
      (∀ ℓ s, (ℓ, s) ∈ ls.zip ss → ∃ o, Passes now r rtt s o ∧
        ∀ s', o = some s' → (ℓ, s') ∈ (keptLabels now r ls ss).zip (os.filterMap id)) ∧
      ∀ ℓ s', (ℓ, s') ∈ (keptLabels now r ls ss).zip (os.filterMap id) →
        ∃ s, (ℓ, s) ∈ ls.zip ss ∧ Passes now r rtt s (some s') := by
  induction h with
  | nil =>
    intro ls hl
    rw [List.length_nil, List.length_eq_zero_iff] at hl
    subst hl
    simp [keptLabels]
  | @cons s o ss os hso _ ih =>
    intro ls hl
    cases ls with
    | nil => simp at hl
    | cons ℓ₀ ls =>
      obtain ⟨h1, h2, h3⟩ := ih (Nat.succ.inj hl)
      have hk := hso.keeps
      cases o with
      | none =>
        simp only [Option.isSome_none] at hk
        simp only [keptLabels, List.zip_cons_cons, List.filter_cons, hk, Bool.false_eq_true,
          if_false, List.filterMap_cons, id] at h1 h2 h3 ⊢
        refine ⟨h1, ?_, fun ℓ s' hs' => ?_⟩
        · intro ℓ s' hs'
          rcases List.mem_cons.1 hs' with e | hs'
          · cases e
            exact ⟨none, hso, fun _ e => by cases e⟩
          · exact h2 ℓ s' hs'
        · obtain ⟨s, hs, hp⟩ := h3 ℓ s' hs'
          exact ⟨s, List.mem_cons_of_mem _ hs, hp⟩
      | some s₁ =>
        simp only [Option.isSome_some] at hk
        simp only [keptLabels, List.zip_cons_cons, List.filter_cons, hk, if_true, List.map_cons,
          List.filterMap_cons, id, List.length_cons] at h1 h2 h3 ⊢
        refine ⟨by rw [h1], ?_, fun ℓ s' hs' => ?_⟩
        · intro ℓ s' hs'
          rcases List.mem_cons.1 hs' with e | hs'
          · cases e
            exact ⟨some s₁, hso, fun _ e => by cases e; exact List.mem_cons_self⟩
          · obtain ⟨o, ho, hin⟩ := h2 ℓ s' hs'
            exact ⟨o, ho, fun s'' e => List.mem_cons_of_mem _ (hin s'' e)⟩
        · rcases List.mem_cons.1 hs' with e | hs'
          · cases e
            exact ⟨s, List.mem_cons_self, hso⟩
          · obtain ⟨s, hs, hp⟩ := h3 ℓ s' hs'
            exact ⟨s, List.mem_cons_of_mem _ hs, hp⟩

theorem forall₂_getD {α β : Type} {R : α → β → Prop} :
    ∀ {L : List (List α)} {L' : List (List β)}, List.Forall₂ (List.Forall₂ R) L L' →
      ∀ i, List.Forall₂ R (L.getD i []) (L'.getD i [])
  | _, _, .nil, _ => by simp
  | _, _, .cons h _, 0 => by simpa using h
  | _, _, .cons _ hs, i + 1 => by simpa using forall₂_getD hs i

theorem storedOf_eq_getD (raw : Nat) : w.storedOf raw = w.stored.toList.getD raw [] := by
  simp [storedOf, Array.getD_eq_getD_getElem?, List.getD_eq_getElem?_getD]

theorem scan_storedOf {now rtt : Nat} {r : ResendSchedule} {p : ResendPass} {w₁ : SendWindow}
    (h : w.scan now r rtt = .ok (p, w₁)) (raw : Nat) :
    ∃ os, List.Forall₂ (Passes now r rtt) (w.storedOf raw) os ∧ w₁.storedOf raw = os.filterMap id := by
  obtain ⟨oss, hoss, hst, -⟩ := scan_passes h
  refine ⟨oss.getD raw [], ?_, ?_⟩
  · rw [storedOf_eq_getD]
    exact forall₂_getD hoss raw
  · rw [storedOf_eq_getD, hst]
    exact List.getD_map oss [] (·.filterMap id)

theorem mem_all_of_tagged {τ : Nat → List Nat} {ℓ : Nat} {s : Stored} (h : (ℓ, s) ∈ w.tagged τ) :
    s ∈ w.all := by
  obtain ⟨raw, -, h⟩ := mem_tagged.1 h
  exact mem_all (List.of_mem_zip h).2


theorem tagged_of_stored_eq {w₁ : SendWindow} (h : w₁.stored = w.stored) (τ : Nat → List Nat) :
    w₁.tagged τ = w.tagged τ := by
  simp only [tagged, storedOf, h]

theorem mem_tagged_update {w₁ : SendWindow} {τ τ₁ : Nat → List Nat} {raw : Nat}
    (hraw : raw < Kind.count) (hsame : ∀ raw', raw' ≠ raw → τ₁ raw' = τ raw' ∧ w₁.storedOf raw' = w.storedOf raw')
    {x : Nat × Stored} : x ∈ w₁.tagged τ₁ ↔
      x ∈ (τ₁ raw).zip (w₁.storedOf raw) ∨ ∃ raw' < Kind.count, raw' ≠ raw ∧ x ∈ (τ raw').zip (w.storedOf raw') := by
  rw [mem_tagged]
  constructor
  · rintro ⟨raw', h', hx⟩
    by_cases e : raw' = raw
    · subst e
      exact .inl hx
    · obtain ⟨h1, h2⟩ := hsame raw' e
      rw [h1, h2] at hx
      exact .inr ⟨raw', h', e, hx⟩
  · rintro (hx | ⟨raw', h', e, hx⟩)
    · exact ⟨raw, hraw, hx⟩
    · obtain ⟨h1, h2⟩ := hsame raw' e
      exact ⟨raw', h', by rw [h1, h2]; exact hx⟩

theorem mem_tagged_split {τ : Nat → List Nat} {raw : Nat} (hraw : raw < Kind.count) {x : Nat × Stored} :
    x ∈ w.tagged τ ↔
      x ∈ (τ raw).zip (w.storedOf raw) ∨ ∃ raw' < Kind.count, raw' ≠ raw ∧ x ∈ (τ raw').zip (w.storedOf raw') :=
  mem_tagged_update hraw fun _ _ => ⟨rfl, rfl⟩

namespace Labelled

variable {τ τ₁ : Nat → List Nat} {j : Nat}

theorem mono (hl : Labelled w τ j) {j' : Nat} (hj : j ≤ j') : Labelled w τ j' :=
  ⟨hl.len, hl.nodup, hl.apart, fun raw ℓ hℓ => Nat.lt_of_lt_of_le (hl.below raw ℓ hℓ) hj⟩

theorem sublist (hl : Labelled w τ j) {w₁ : SendWindow} (hlen : ∀ raw, (τ₁ raw).length = (w₁.storedOf raw).length)
    (hsub : ∀ raw, (τ₁ raw).Sublist (τ raw)) : Labelled w₁ τ₁ (j + 1) where
  len := hlen
  nodup raw := (hl.nodup raw).sublist (hsub raw)
  apart a b hab ℓ ha hb := hl.apart a b hab ℓ ((hsub a).subset ha) ((hsub b).subset hb)
  below raw ℓ hℓ := Nat.lt_succ_of_lt (hl.below raw ℓ ((hsub raw).subset hℓ))

end Labelled

variable {r : ResendSchedule} {τ : Nat → List Nat} {j : Nat}

/-- The deeds `ds` still to come for label `ℓ` fit where its message stands: the schedule of the
message while it is stored, nothing once it left, and a whole life while the label is not given. -/
structure Follows (r : ResendSchedule) (w : SendWindow) (τ : Nat → List Nat) (j ℓ : Nat)
    (ds : List Deed) : Prop where
  stored : ∀ s, (ℓ, s) ∈ w.tagged τ → Schedule r s.sends s.nextResend ds
  gone : (∀ s, (ℓ, s) ∉ w.tagged τ) → ℓ < j → ds = []
  fresh : (∀ s, (ℓ, s) ∉ w.tagged τ) → j ≤ ℓ → Life r ds

namespace Follows

variable {w₁ : SendWindow} {τ₁ : Nat → List Nat} {ℓ : Nat} {ds : List Deed}

theorem last (w : SendWindow) (τ : Nat → List Nat) (j ℓ : Nat) : Follows r w τ j ℓ [] where
  stored _ _ := .stay _ _
  gone _ _ := rfl
  fresh _ _ := .unused

theorem frame (h : Follows r w₁ τ₁ (j + 1) ℓ ds)
    (hsame : ∀ s, (ℓ, s) ∈ w₁.tagged τ₁ ↔ (ℓ, s) ∈ w.tagged τ) : Follows r w τ j ℓ ds where
  stored s hs := h.stored s ((hsame s).2 hs)
  gone hn hlt := h.gone (fun s hs => hn s ((hsame s).1 hs)) (Nat.lt_succ_of_lt hlt)
  fresh hn hle := by
    have hn₁ : ∀ s, (ℓ, s) ∉ w₁.tagged τ₁ := fun s hs => hn s ((hsame s).1 hs)
    rcases Nat.eq_or_lt_of_le hle with rfl | hlt
    · -- the call gives no message the label `j`
      rw [h.gone hn₁ (Nat.lt_succ_self _)]
      exact .unused
    · exact h.fresh hn₁ hlt

theorem ended (hl : Labelled w τ j) (h : Follows r w₁ τ₁ (j + 1) ℓ ds) {s : Stored}
    (hs : (ℓ, s) ∈ w.tagged τ) (hgone : ∀ s', (ℓ, s') ∉ w₁.tagged τ₁) : ds = [] :=
  h.gone hgone (Nat.lt_succ_of_lt (hl.lt hs))

end Follows

/-! ### Resend passes -/

variable {now rtt : Nat} {p : ResendPass} {w₁ : SendWindow}

theorem resendDue_labels (hl : Labelled w τ j) (hw : w.Timely) (h : w.resendDue now r rtt = .ok (p, w₁)) :
    Labelled w₁ (w.retag r τ j (.resend now rtt)) (j + 1) ∧
      (∀ ℓ s, (ℓ, s) ∈ w.tagged τ → ∃ o, Passes now r rtt s o ∧
        ∀ s', (ℓ, s') ∈ w₁.tagged (w.retag r τ j (.resend now rtt)) ↔ o = some s') ∧
      ∀ ℓ s', (ℓ, s') ∈ w₁.tagged (w.retag r τ j (.resend now rtt)) → ∃ s, (ℓ, s) ∈ w.tagged τ := by
  cases hp : w.passes now
  · -- nothing is due: every message waits
    rw [resendDue_of_not_passes hp] at h
    cases h
    simp only [retag, hp, Bool.false_eq_true, if_false]
    refine ⟨hl.mono (Nat.le_succ j), fun ℓ s hs => ?_, fun ℓ s' h' => ⟨s', h'⟩⟩
    refine ⟨some s, .wait (hw.waits hp s (mem_all_of_tagged hs)), fun s' => ⟨fun h' => ?_, fun e => ?_⟩⟩
    · rw [hl.unique hs h']
    · cases e
      exact hs
  · rw [resendDue_of_passes hp] at h
    simp only [retag, hp, if_true]
    have hback : ∀ ℓ s', (ℓ, s') ∈ w₁.tagged (fun raw => keptLabels now r (τ raw) (w.storedOf raw)) →
        ∃ s, (ℓ, s) ∈ w.tagged τ ∧ Passes now r rtt s (some s') := by
      intro ℓ s' h'
      obtain ⟨raw, hraw, h'⟩ := mem_tagged.1 h'
      obtain ⟨os, hos, hst⟩ := scan_storedOf h raw
      rw [hst] at h'
      obtain ⟨s, hs, hps⟩ := (zip_passes hos (hl.len raw)).2.2 ℓ s' h'
      exact ⟨s, mem_tagged.2 ⟨raw, hraw, hs⟩, hps⟩
    refine ⟨hl.sublist (fun raw => ?_) (fun raw => zip_filter_sublist (Nat.le_of_eq (hl.len raw))),
      fun ℓ s hs => ?_, fun ℓ s' h' => (hback ℓ s' h').imp fun _ => And.left⟩
    · obtain ⟨os, hos, hst⟩ := scan_storedOf h raw
      rw [hst]
      exact (zip_passes hos (hl.len raw)).1
    · obtain ⟨raw, hraw, hs'⟩ := mem_tagged.1 hs
      obtain ⟨os, hos, hst⟩ := scan_storedOf h raw
      obtain ⟨o, ho, hin⟩ := (zip_passes hos (hl.len raw)).2.1 ℓ s hs'
      refine ⟨o, ho, fun s' => ⟨fun h' => ?_, fun e => mem_tagged.2 ⟨raw, hraw, ?_⟩⟩⟩
      · -- the message the label carried after the pass came from this one
        obtain ⟨s₀, hs₀, hp₀⟩ := hback ℓ s' h'
        rw [hl.unique hs hs₀] at ho
        exact ho.det hp₀
      · rw [hst]
        exact hin s' e

theorem Follows.resendDue (hl : Labelled w τ j) (hw : w.Timely) (h : w.resendDue now r rtt = .ok (p, w₁))
    {ℓ : Nat} {ds : List Deed} (hf : Follows r w₁ (w.retag r τ j (.resend now rtt)) (j + 1) ℓ ds) :
    Follows r w τ j ℓ (select ℓ (w.deeds r τ j (.resend now rtt)) ++ ds) := by
  obtain ⟨-, hfwd, hback⟩ := resendDue_labels hl hw h
  simp only [deeds]
  by_cases hℓ : ∃ s, (ℓ, s) ∈ w.tagged τ
  · obtain ⟨s, hs⟩ := hℓ
    rw [select_map_of_mem _ hl.keys_nodup hs]
    refine ⟨fun s' hs' => ?_, fun hn => absurd hs (hn s), fun hn => absurd hs (hn s)⟩
    rw [← hl.unique hs hs']
    obtain ⟨o, ho, hiff⟩ := hfwd ℓ s hs
    -- the pass does to the message what its schedule allows at `now`
    cases ho with
    | wait hlt =>
      rw [Stored.deedAt, if_pos hlt]
      exact .wait hlt (hf.stored s ((hiff s).2 rfl))
    | drop hle hge =>
      rw [Stored.deedAt, if_neg (Nat.not_lt.2 hle), if_neg (Nat.not_lt.2 hge),
        hf.ended hl hs fun s' h' => by cases (hiff s').1 h']
      exact .drop hle hge
    | resend hle hlt hd ht =>
      rw [Stored.deedAt, if_neg (Nat.not_lt.2 hle), if_pos hlt]
      have hnext := hf.stored _ ((hiff _).2 rfl)
      rw [Span.after_ok ht] at hnext
      exact .resend hle hlt hd hnext
  · simp only [not_exists] at hℓ
    rw [select_map_of_not_mem _ hℓ, List.nil_append]
    refine hf.frame fun s => ⟨fun h' => ?_, fun h' => absurd h' (hℓ s)⟩
    obtain ⟨s₀, hs₀⟩ := hback ℓ s h'
    exact absurd hs₀ (hℓ s₀)


/-! ### Stores -/

theorem store_labels (hl : Labelled w τ j) (hw : w.Timely) {m : Queued} {seq : Seq}
    (h : w.store m seq now r rtt = .ok w₁) :
    ∃ d, r.delay 1 rtt = .ok d ∧ Labelled w₁ (w.retag r τ j (.store m seq now rtt)) (j + 1) ∧
      ∀ ℓ s, (ℓ, s) ∈ w₁.tagged (w.retag r τ j (.store m seq now rtt)) ↔
        (ℓ, s) ∈ w.tagged τ ∨ (ℓ = j ∧ s = { msg := m, seq, sends := 1, nextResend := now + d }) := by
  obtain ⟨raw, d, t, hraw, hd, ht, rfl⟩ := store_cases h
  obtain rfl := Span.after_ok ht
  have hlt : raw < w.stored.size := hw.size ▸ slot_lt hraw
  simp only [retag, hraw]
  have hself : ({ w with
      earliest := some (minOpt w.earliest (now + d))
      stored := w.stored.setIfInBounds raw
        (w.storedOf raw ++ [{ msg := m, seq, sends := 1, nextResend := now + d }]) } : SendWindow).storedOf raw =
      w.storedOf raw ++ [{ msg := m, seq, sends := 1, nextResend := now + d }] :=
    getD_setIfInBounds_self hlt
  have hother : ∀ raw', raw' ≠ raw → Function.update τ raw (τ raw ++ [j]) raw' = τ raw' ∧
      ({ w with
        earliest := some (minOpt w.earliest (now + d))
        stored := w.stored.setIfInBounds raw
          (w.storedOf raw ++ [{ msg := m, seq, sends := 1, nextResend := now + d }]) } : SendWindow).storedOf raw' =
        w.storedOf raw' :=
    fun raw' e => ⟨Function.update_of_ne e _ _, getD_setIfInBounds_ne (Ne.symm e)⟩
  have hfresh : ∀ raw', j ∉ τ raw' := fun raw' hj => Nat.lt_irrefl j (hl.below raw' j hj)
  have hmem : ∀ x ℓ, ℓ ∈ Function.update τ raw (τ raw ++ [j]) x ↔ ℓ ∈ τ x ∨ (x = raw ∧ ℓ = j) := by
    intro x ℓ
    by_cases e : x = raw
    · subst e
      simp
    · simp [e]
  refine ⟨d, hd, ⟨fun raw' => ?_, fun raw' => ?_, fun a b hab ℓ ha hb => ?_, fun raw' ℓ hℓ => ?_⟩,
    fun ℓ s => ?_⟩
  · by_cases e : raw' = raw
    · subst e
      simp [hself, hl.len raw']
    · rw [(hother raw' e).1, (hother raw' e).2]
      exact hl.len raw'
  · by_cases e : raw' = raw
    · subst e
      rw [Function.update_self, List.nodup_append]
      exact ⟨hl.nodup raw', List.nodup_singleton j, fun a ha b hb e => by
        rw [List.mem_singleton.1 hb] at e
        exact hfresh raw' (e ▸ ha)⟩
    · rw [(hother raw' e).1]
      exact hl.nodup raw'
  · -- the new label is in no other list
    rcases (hmem a ℓ).1 ha with ha' | ⟨ea, eℓa⟩ <;> rcases (hmem b ℓ).1 hb with hb' | ⟨eb, eℓb⟩
    · exact hl.apart a b hab ℓ ha' hb'
    · exact hfresh a (eℓb ▸ ha')
    · exact hfresh b (eℓa ▸ hb')
    · exact hab (ea.trans eb.symm)
  · rcases (hmem raw' ℓ).1 hℓ with hℓ | ⟨-, rfl⟩
    · exact Nat.lt_succ_of_lt (hl.below raw' ℓ hℓ)
    · exact Nat.lt_succ_self ℓ
  · rw [mem_tagged_update (slot_lt hraw) hother, Function.update_self, hself,
      List.zip_append (hl.len raw), List.zip_cons_cons, List.zip_nil_left, List.mem_append,
      List.mem_singleton, Prod.mk.injEq,
      mem_tagged_split (slot_lt hraw), or_right_comm]

theorem Follows.store (hl : Labelled w τ j) (hw : w.Timely) {m : Queued} {seq : Seq}
    (h : w.store m seq now r rtt = .ok w₁) {ℓ : Nat} {ds : List Deed}
    (hf : Follows r w₁ (w.retag r τ j (.store m seq now rtt)) (j + 1) ℓ ds) :
    Follows r w τ j ℓ (select ℓ (w.deeds r τ j (.store m seq now rtt)) ++ ds) := by
  obtain ⟨d, hd, -, hiff⟩ := store_labels hl hw h
  simp only [deeds, select_cons]
  by_cases e : ℓ = j
  · subst e
    -- the message stored here is the first the label is given to
    have hn : ∀ s, (ℓ, s) ∉ w.tagged τ := fun s hs => Nat.lt_irrefl _ (hl.lt hs)
    simp only [if_true]
    exact ⟨fun s hs => absurd hs (hn s), fun _ hlt => absurd hlt (Nat.lt_irrefl _),
      fun _ _ => .sent hd (hf.stored _ ((hiff _ _).2 (.inr ⟨rfl, rfl⟩)))⟩
  · rw [if_neg (Ne.symm e)]
    exact hf.frame fun s => by simp [hiff, e]

/-! ### Acknowledgements, clears, numbering -/

theorem zip_eraseIdx {α β : Type} : ∀ (l : List α) (l' : List β) (i : Nat), l.length = l'.length →
    (l.eraseIdx i).zip (l'.eraseIdx i) = (l.zip l').eraseIdx i
  | [], [], _, _ => rfl
  | _ :: _, _ :: _, 0, _ => rfl
  | a :: l, b :: l', i + 1, h => by
    simp [zip_eraseIdx l l' i (Nat.succ.inj h)]
  | [], _ :: _, _, h => by simp at h
  | _ :: _, [], _, h => by simp at h

theorem mem_eraseIdx_zip {α : Type} {l : List Nat} {l' : List α} {i : Nat} (hn : l.Nodup)
    (hi : i < l.length) {x : Nat × α} :
    x ∈ (l.zip l').eraseIdx i ↔ x ∈ l.zip l' ∧ x.1 ≠ l[i] := by
  rw [List.mem_eraseIdx_iff_getElem]
  constructor
  · rintro ⟨k, hk, hki, rfl⟩
    refine ⟨List.getElem_mem hk, ?_⟩
    rw [List.getElem_zip]
    exact fun e => hki ((hn.getElem_inj_iff).1 e)
  · rintro ⟨hx, hne⟩
    obtain ⟨k, hk, rfl⟩ := List.getElem_of_mem hx
    refine ⟨k, hk, fun e => hne ?_, rfl⟩
    subst e
    rw [List.getElem_zip]

theorem ack_found_labels (hl : Labelled w τ j) (hw : w.Timely) {seq : Seq} {raw i : Nat}
    (hraw : raw < Kind.count) (hi : (w.storedOf raw).findIdx? (·.seq == seq) = some i) :
    ∃ ℓ₀ s₀, (ℓ₀, s₀) ∈ w.tagged τ ∧ w.deeds r τ j (.ack seq raw) = [(ℓ₀, .acked)] ∧
      Labelled (w.ack seq raw).2 (w.retag r τ j (.ack seq raw)) (j + 1) ∧
      ∀ ℓ s, (ℓ, s) ∈ (w.ack seq raw).2.tagged (w.retag r τ j (.ack seq raw)) ↔
        (ℓ, s) ∈ w.tagged τ ∧ ℓ ≠ ℓ₀ := by
  have hi' : i < (w.storedOf raw).length := (List.findIdx?_eq_some_iff_getElem.1 hi).1
  have hiτ : i < (τ raw).length := (hl.len raw).symm ▸ hi'
  have hst : (w.ack seq raw).2.stored = w.stored.setIfInBounds raw ((w.storedOf raw).eraseIdx i) := by
    rw [stored_ack]
    simp [hraw, hi]
  have hτ : w.retag r τ j (.ack seq raw) = Function.update τ raw ((τ raw).eraseIdx i) := by
    simp [retag, hraw, hi]
  have hd : w.deeds r τ j (.ack seq raw) = [((τ raw)[i], .acked)] := by
    simp [deeds, hraw, hi, List.getElem?_eq_getElem hiτ]
  have hlt : raw < w.stored.size := hw.size ▸ hraw
  have hself : (w.ack seq raw).2.storedOf raw = (w.storedOf raw).eraseIdx i := by
    show (w.ack seq raw).2.stored.getD raw [] = _
    rw [hst, getD_setIfInBounds_self hlt]
  have hother : ∀ raw', raw' ≠ raw → Function.update τ raw ((τ raw).eraseIdx i) raw' = τ raw' ∧
      (w.ack seq raw).2.storedOf raw' = w.storedOf raw' := by
    intro raw' e
    refine ⟨Function.update_of_ne e _ _, ?_⟩
    show (w.ack seq raw).2.stored.getD raw' [] = _
    rw [hst, getD_setIfInBounds_ne (Ne.symm e)]
    rfl
  rw [hτ, hd]
  refine ⟨(τ raw)[i], (w.storedOf raw)[i], mem_tagged.2 ⟨raw, hraw, ?_⟩, rfl, hl.sublist ?_ ?_,
    fun ℓ s => ?_⟩
  · have := List.getElem_mem (show i < ((τ raw).zip (w.storedOf raw)).length by simp; omega)
    simpa [List.getElem_zip] using this
  · intro raw'
    by_cases e : raw' = raw
    · subst e
      simp only [Function.update_self, hself, List.length_eraseIdx, hl.len raw']
    · rw [(hother raw' e).1, (hother raw' e).2]
      exact hl.len raw'
  · intro raw'
    by_cases e : raw' = raw
    · subst e
      rw [Function.update_self]
      exact List.eraseIdx_sublist _ _
    · rw [(hother raw' e).1]
  · rw [mem_tagged_update hraw hother, Function.update_self, hself, zip_eraseIdx _ _ _ (hl.len raw),
      mem_eraseIdx_zip (hl.nodup raw) hiτ,
      mem_tagged_split hraw]
    constructor
    · rintro (⟨hx, hne⟩ | hB)
      · exact ⟨.inl hx, hne⟩
      · refine ⟨.inr hB, fun hℓ => ?_⟩
        -- a label of another list is not the removed one
        obtain ⟨raw', -, e, hx⟩ := hB
        exact hl.apart raw raw' (Ne.symm e) _ (List.getElem_mem hiτ) (hℓ ▸ (List.of_mem_zip hx).1)
    · rintro ⟨hx | hB, hne⟩
      · exact .inl ⟨hx, hne⟩
      · exact .inr hB


theorem ack_missed {seq : Seq} {raw : Nat}
    (hmiss : ¬ ∃ i, raw < Kind.count ∧ (w.storedOf raw).findIdx? (·.seq == seq) = some i) :
    (w.ack seq raw).2.stored = w.stored ∧ w.retag r τ j (.ack seq raw) = τ ∧
      w.deeds r τ j (.ack seq raw) = [] := by
  by_cases hraw : raw < Kind.count
  · have hi : (w.storedOf raw).findIdx? (·.seq == seq) = none := by
      cases hi : (w.storedOf raw).findIdx? (·.seq == seq) with
      | none => rfl
      | some i => exact absurd ⟨i, hraw, hi⟩ hmiss
    refine ⟨?_, ?_, ?_⟩
    · rw [stored_ack]
      simp [hraw, hi]
    · simp [retag, hraw, hi]
    · simp [deeds, hraw, hi]
  · refine ⟨?_, ?_, ?_⟩
    · rw [stored_ack]
      simp [hraw]
    · simp [retag, hraw]
    · simp [deeds, hraw]

theorem stored_assign {k : Kind} {seq : Option Seq} (h : w.assign k = .ok (seq, w₁)) :
    w₁.stored = w.stored := by
  rcases assign_cases h with ⟨-, -, rfl⟩ | ⟨raw, -, -, -, rfl⟩ <;> rfl

theorem Labelled.of_stored_eq (hl : Labelled w τ j) (h : w₁.stored = w.stored) : Labelled w₁ τ (j + 1) :=
  hl.sublist (fun raw => by rw [hl.len raw]; simp only [storedOf, h]) fun _ => List.Sublist.refl _

theorem Follows.ack (hl : Labelled w τ j) (hw : w.Timely) (seq : Seq) (raw : Nat) {ℓ : Nat}
    {ds : List Deed} (hf : Follows r (w.ack seq raw).2 (w.retag r τ j (.ack seq raw)) (j + 1) ℓ ds) :
    Follows r w τ j ℓ (select ℓ (w.deeds r τ j (.ack seq raw)) ++ ds) := by
  by_cases hfound : ∃ i, raw < Kind.count ∧ (w.storedOf raw).findIdx? (·.seq == seq) = some i
  · obtain ⟨i, hraw, hi⟩ := hfound
    obtain ⟨ℓ₀, s₀, hs₀, hd, -, hiff⟩ := ack_found_labels (r := r) hl hw hraw hi
    rw [hd, select_cons]
    by_cases e : ℓ = ℓ₀
    · -- the acknowledged message: its schedule ends here
      subst e
      rw [if_pos rfl]
      refine ⟨fun s hs => ?_, fun hn => absurd hs₀ (hn s₀), fun hn => absurd hs₀ (hn s₀)⟩
      rw [hf.ended hl hs fun s' h' => ((hiff ℓ s').1 h').2 rfl]
      exact .ack _ _
    · rw [if_neg (Ne.symm e)]
      exact hf.frame fun s => by rw [hiff]; exact and_iff_left e
  · obtain ⟨hst, hτ, hd⟩ := ack_missed (r := r) (τ := τ) (j := j) hfound
    rw [hd]
    rw [hτ] at hf
    exact hf.frame fun s => by rw [tagged_of_stored_eq hst]

theorem Follows.clear (hl : Labelled w τ j) {ℓ : Nat} {ds : List Deed}
    (hf : Follows r w.clear.2 (w.retag r τ j .clear) (j + 1) ℓ ds) :
    Follows r w τ j ℓ (select ℓ (w.deeds r τ j .clear) ++ ds) := by
  have hnone : ∀ s, (ℓ, s) ∉ w.clear.2.tagged (w.retag r τ j .clear) := by
    simp [tagged, retag]
  simp only [deeds]
  by_cases hℓ : ∃ s, (ℓ, s) ∈ w.tagged τ
  · obtain ⟨s, hs⟩ := hℓ
    rw [select_map_of_mem (fun _ => Deed.cleared) hl.keys_nodup hs, hf.ended hl hs hnone]
    refine ⟨fun _ _ => .clear _ _, fun hn => absurd hs (hn s), fun hn => absurd hs (hn s)⟩
  · simp only [not_exists] at hℓ
    rw [select_map_of_not_mem (fun _ => Deed.cleared) hℓ]
    exact hf.frame fun s => ⟨fun h => absurd h (hnone s), fun h => absurd h (hℓ s)⟩

theorem Follows.call (hl : Labelled w τ j) (hw : w.Timely) {c : WindowCall}
    (hc : w.call r c = .ok (p, w₁)) {ℓ : Nat} {ds : List Deed}
    (hf : Follows r w₁ (w.retag r τ j c) (j + 1) ℓ ds) :
    Follows r w τ j ℓ (select ℓ (w.deeds r τ j c) ++ ds) := by
  cases c with
  | assign k =>
    obtain ⟨seq, hx, -⟩ := call_assign hc
    exact hf.frame fun s => by rw [tagged_of_stored_eq (stored_assign hx)]; exact Iff.rfl
  | store m seq now rtt => exact Follows.store hl hw (call_store hc).1 hf
  | resend now rtt => exact Follows.resendDue hl hw hc hf
  | ack seq raw =>
    cases hc
    exact Follows.ack hl hw seq raw hf
  | clear =>
    cases hc
    exact Follows.clear hl hf

theorem Labelled.call (hl : Labelled w τ j) (hw : w.Timely) {c : WindowCall}
    (hc : w.call r c = .ok (p, w₁)) : Labelled w₁ (w.retag r τ j c) (j + 1) := by
  cases c with
  | assign k =>
    obtain ⟨seq, hx, -⟩ := call_assign hc
    exact hl.of_stored_eq (stored_assign hx)
  | store m seq now rtt => exact (store_labels hl hw (call_store hc).1).choose_spec.2.1
  | resend now rtt => exact (resendDue_labels hl hw hc).1
  | ack seq raw =>
    cases hc
    by_cases hfound : ∃ i, raw < Kind.count ∧ (w.storedOf raw).findIdx? (·.seq == seq) = some i
    · obtain ⟨i, hraw, hi⟩ := hfound
      exact (ack_found_labels hl hw hraw hi).choose_spec.choose_spec.2.2.1
    · obtain ⟨hst, hτ, -⟩ := ack_missed (r := r) (τ := τ) (j := j) hfound
      rw [hτ]
      exact hl.of_stored_eq hst
  | clear =>
    cases hc
    exact hl.sublist (fun raw => by
        simp only [retag, SendWindow.clear, storedOf, getD_replicate_nil, List.length_nil])
      fun _ => List.nil_sublist _

theorem Session.follows {log : List (SendWindow × WindowCall × ResendPass)} {w' : SendWindow}
    (hs : Session r w log w') : ∀ {τ : Nat → List Nat} {j : Nat}, Labelled w τ j → w.Timely →
      ∀ ℓ, Follows r w τ j ℓ ((trace r τ j log).flatMap fun x => select ℓ x.2) := by
  -- induction on the session; the labels and the call number move with each call
  induction hs with
  | nil w => exact fun _ _ ℓ => Follows.last _ _ _ ℓ
  | cons hc _ ih =>
    intro τ j hl hw ℓ
    simp only [trace, List.flatMap_cons]
    exact Follows.call hl hw hc (ih (hl.call hw hc) (hw.call hc) ℓ)


/-! ## What the passes report -/

theorem range_flatMap_getD {α : Type} : ∀ L : List (List α),
    (List.range L.length).flatMap (fun i => L.getD i []) = L.flatten
  | [] => rfl
  | a :: L => by
    rw [List.length_cons, List.range_succ_eq_map, List.flatMap_cons, List.flatMap_map]
    simp only [List.getD_cons_zero, List.getD_cons_succ, List.flatten_cons, range_flatMap_getD L]

theorem tagged_map_snd (hl : Labelled w τ j) (hw : w.Timely) : (w.tagged τ).map (·.2) = w.all := by
  rw [tagged, List.map_flatMap]
  rw [List.flatMap_congr fun raw _ => List.map_snd_zip (Nat.le_of_eq (hl.len raw).symm)]
  have := range_flatMap_getD w.stored.toList
  rw [Array.length_toList, hw.size] at this
  simp only [all, ← this]
  exact List.flatMap_congr fun raw _ => storedOf_eq_getD raw

theorem resentCall_deeds (L : List (Nat × Stored)) :
    (L.map fun x => (x.1, x.2.deedAt now r rtt)).filterMap (·.2.resentCall) =
      ((L.map (·.2)).filter (resends now r)).map fun s => (s.msg, s.seq) := by
  induction L with
  | nil => rfl
  | cons x L ih =>
    rw [List.map_cons, List.filterMap_cons, ih, List.map_cons, List.filter_cons]
    simp only [Stored.deedAt, resends]
    by_cases h1 : now < x.2.nextResend
    · have : ¬ x.2.nextResend ≤ now := Nat.not_le.2 h1
      simp [h1, this, Deed.resentCall]
    · by_cases h2 : x.2.sends < r.maxSends
      · simp [h1, h2, Nat.not_lt.1 h1, Deed.resentCall]
      · simp [h1, h2, Deed.resentCall]

theorem droppedMsg_deeds (L : List (Nat × Stored)) :
    (L.map fun x => (x.1, x.2.deedAt now r rtt)).filterMap (·.2.droppedMsg) =
      ((L.map (·.2)).filter (drops now r)).map (·.msg) := by
  induction L with
  | nil => rfl
  | cons x L ih =>
    rw [List.map_cons, List.filterMap_cons, ih, List.map_cons, List.filter_cons]
    simp only [Stored.deedAt, drops]
    by_cases h1 : now < x.2.nextResend
    · have : ¬ x.2.nextResend ≤ now := Nat.not_le.2 h1
      simp [h1, this, Deed.droppedMsg]
    · by_cases h2 : x.2.sends < r.maxSends
      · simp [h1, h2, Nat.not_le.2 h2, Deed.droppedMsg]
      · simp [h1, h2, Nat.not_lt.1 h1, Nat.not_lt.1 h2, Deed.droppedMsg]

theorem call_reports (hl : Labelled w τ j) (hw : w.Timely) {c : WindowCall} (hc : w.call r c = .ok (p, w₁)) :
    p.resent = (w.deeds r τ j c).filterMap (·.2.resentCall) ∧
      p.dropped = (w.deeds r τ j c).filterMap (·.2.droppedMsg) := by
  cases c with
  | assign k =>
    obtain ⟨-, -, rfl⟩ := call_assign hc
    exact ⟨rfl, rfl⟩
  | store m seq now rtt =>
    obtain ⟨-, rfl⟩ := call_store hc
    exact ⟨rfl, rfl⟩
  | resend now rtt =>
    change w.resendDue now r rtt = .ok (p, w₁) at hc
    simp only [deeds]
    rw [resentCall_deeds, droppedMsg_deeds, tagged_map_snd hl hw]
    cases hp : w.passes now
    · -- nothing is due: the pass reports nothing, and no message is due
      rw [resendDue_of_not_passes hp] at hc
      cases hc
      have hwait := hw.waits hp
      refine ⟨?_, ?_⟩ <;> symm <;> rw [List.map_eq_nil_iff, List.filter_eq_nil_iff] <;>
        intro s hs <;> have := hwait s hs <;> simp [resends, drops] <;> omega
    · rw [resendDue_of_passes hp] at hc
      obtain ⟨-, -, -, hres, hdrop, -⟩ := scan_passes hc
      exact ⟨hres, hdrop⟩
  | ack seq raw =>
    cases hc
    by_cases hfound : ∃ i, raw < Kind.count ∧ (w.storedOf raw).findIdx? (·.seq == seq) = some i
    · obtain ⟨i, hraw, hi⟩ := hfound
      obtain ⟨ℓ₀, s₀, -, hd, -⟩ := ack_found_labels (r := r) hl hw hraw hi
      rw [hd]
      exact ⟨rfl, rfl⟩
    · rw [(ack_missed (r := r) (τ := τ) (j := j) hfound).2.2]
      exact ⟨rfl, rfl⟩
  | clear =>
    cases hc
    simp [deeds, List.filterMap_map, Deed.resentCall, Deed.droppedMsg]

theorem Session.reports {log : List (SendWindow × WindowCall × ResendPass)} {w' : SendWindow}
    (hs : Session r w log w') : ∀ {τ : Nat → List Nat} {j : Nat}, Labelled w τ j → w.Timely →
      ∀ x ∈ trace r τ j log, x.1.resent = x.2.filterMap (·.2.resentCall) ∧
        x.1.dropped = x.2.filterMap (·.2.droppedMsg) := by
  induction hs with
  | nil w => exact fun _ _ x hx => by cases hx
  | cons hc _ ih =>
    intro τ j hl hw x hx
    simp only [trace, List.mem_cons] at hx
    rcases hx with rfl | hx
    · exact call_reports hl hw hc
    · exact ih (hl.call hw hc) (hw.call hc) x hx

/-- Every message stored along a session from an empty window lives by its schedule: first sent
at its store, then sent again at the first pass at or after each due time, one delay after its
last send, until it was sent `maxSends` times; at the first pass due after that it is dropped,
unless acknowledged or cleared before. Each pass reports as resent and dropped exactly the
messages it sent again and gave up, in order. -/
theorem messages_follow_schedule {n : Nat} {log : List (SendWindow × WindowCall × ResendPass)}
    {w' : SendWindow} (hr : 0 < r.maxSends) (hs : Session r { window := n } log w') :
    (∀ x ∈ trace r (fun _ => []) 0 log, x.1.resent = x.2.filterMap (·.2.resentCall) ∧
        x.1.dropped = x.2.filterMap (·.2.droppedMsg)) ∧
      ∀ ℓ, Life r (history r log ℓ) ∧ (history r log ℓ).countP Deed.transmits ≤ r.maxSends ∧
        (∀ pre d post, history r log ℓ = pre ++ d :: post → d.ends = true → post = []) ∧
        ∀ pre now m post, history r log ℓ = pre ++ .dropped now m :: post →
          pre.countP Deed.transmits = r.maxSends := by
  refine ⟨hs.reports (Labelled.fresh n) (Timely.fresh n), fun ℓ => ?_⟩
  -- no label is given before the first call, so each history is a whole life
  have hlife : Life r (history r log ℓ) :=
    (hs.follows (Labelled.fresh n) (Timely.fresh n) ℓ).fresh (fun s hs => by simp [tagged] at hs)
      (Nat.zero_le ℓ)
  exact ⟨hlife, hlife.transmits_le hr, hlife.ends_last, hlife.dropped_after hr⟩

theorem messages_follow_schedule_dropped :
    let r : ResendSchedule := { baseDelays := [Span.ofMillis 10, Span.ofMillis 20], rttMultipliers := [0.0], maxSends := 3 }
    ∃ log w', Session r { window := 64 } log w' ∧
      (history r log 0).map Deed.transmits = [true, true, true, false] ∧
      Life r (history r log 0) ∧ (history r log 0).countP Deed.transmits ≤ r.maxSends := by
  intro r
  have h : (runCalls r { window := 64 }
      [.store ⟨⟨0, [97], 1⟩, .user .reliableOrdered 1, none⟩ (Seq.ofNat 0) 0 0,
        .resend (Span.ofMillis 10) 0, .resend (Span.ofMillis 30) 0,
        .resend (Span.ofMillis 50) 0]).toOption.map (fun x => (history r x.1 0).map Deed.transmits) =
      some [true, true, true, false] := by decide +kernel
  generalize hrun : runCalls _ _ _ = x at h
  cases x with
  | error => cases h
  | ok x =>
    have hs := Session.of_runCalls hrun
    have hm := (messages_follow_schedule (by decide) hs).2 0
    exact ⟨x.1, x.2, hs, Option.some.inj h, hm.1, hm.2.1⟩

end SendWindow
end ReliableUdp
