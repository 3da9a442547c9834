import ReliableUdp.Proofs.SendNumbering

/-!
# Resend passes over every stored message

A resend pass skips its work when the earliest resend time lies after `now`. That shortcut is
safe because the earliest time stays `Timely` along every session, so a pass does what a full
scan does (`resendDue_as_full_scan`).
-/

namespace ReliableUdp

inductive WindowCall where
  | assign (k : Kind)
  | store (m : Queued) (seq : Seq) (now rtt : Nat)
  | resend (now rtt : Nat)
  | ack (seq : Seq) (raw : Nat)
  | clear

namespace SendWindow

def passList (now : Nat) (r : ResendSchedule) (rtt : Nat)
    (acc : Array (List Stored) × ResendPass × Option Nat) (lst : List Stored) :
    Except Crash (Array (List Stored) × ResendPass × Option Nat) := do
  let (done, pass, earliest) := acc
  let (kept, pass, earliest) ← lst.foldlM (visit now r rtt) ([], pass, earliest)
  pure (done.push kept, pass, earliest)

def scan (w : SendWindow) (now : Nat) (r : ResendSchedule) (rtt : Nat) :
    Except Crash (ResendPass × SendWindow) := do
  let (stored, pass, earliest) ← w.stored.foldlM (passList now r rtt) (#[], {}, none)
  pure (pass, { w with stored, earliest })

variable {w : SendWindow} {now rtt : Nat} {r : ResendSchedule}

theorem resendDue_of_passes (h : w.passes now = true) : w.resendDue now r rtt = w.scan now r rtt := by
  unfold passes at h
  unfold resendDue scan
  split at h
  · rename_i t he
    simp only [he, decide_eq_true_eq] at h ⊢
    simp only [show ¬ t > now by omega, if_false]
    rfl
  · cases h

theorem resendDue_of_not_passes (h : w.passes now = false) : w.resendDue now r rtt = .ok ({}, w) := by
  unfold passes at h
  unfold resendDue
  cases he : w.earliest with
  | none => rfl
  | some t =>
    simp only [he, decide_eq_false_iff_not] at h
    simp only [show t > now by omega, if_true]
    rfl

/-! ## What a pass makes of a message -/

/-- What a resend pass at `now` makes of one stored message: kept as it is while not due,
dropped once due after its last allowed send, else sent again and rescheduled. -/
inductive Passes (now : Nat) (r : ResendSchedule) (rtt : Nat) : Stored → Option Stored → Prop
  | wait {s : Stored} : now < s.nextResend → Passes now r rtt s (some s)
  | drop {s : Stored} : s.nextResend ≤ now → r.maxSends ≤ s.sends → Passes now r rtt s none
  | resend {s : Stored} {d t : Nat} : s.nextResend ≤ now → s.sends < r.maxSends →
      r.delay (s.sends + 1) rtt = .ok d → Span.after now d = .ok t →
      Passes now r rtt s (some { s with sends := s.sends + 1, nextResend := t })

def resends (now : Nat) (r : ResendSchedule) (s : Stored) : Bool :=
  s.nextResend ≤ now && s.sends < r.maxSends

def drops (now : Nat) (r : ResendSchedule) (s : Stored) : Bool :=
  s.nextResend ≤ now && r.maxSends ≤ s.sends

def lowest (e : Option Nat) (l : List Stored) : Option Nat :=
  l.foldl (fun e s => some (minOpt e s.nextResend)) e

@[simp] theorem lowest_nil (e : Option Nat) : lowest e [] = e := rfl

theorem lowest_append (e : Option Nat) (l₁ l₂ : List Stored) :
    lowest e (l₁ ++ l₂) = lowest (lowest e l₁) l₂ := List.foldl_append

theorem lowest_isSome : ∀ (l : List Stored) (t : Nat), (lowest (some t) l).isSome
  | [], _ => rfl
  | _ :: l, _ => lowest_isSome l _

theorem lowest_eq_none {e : Option Nat} {l : List Stored} : lowest e l = none ↔ e = none ∧ l = [] := by
  cases l with
  | nil => simp
  | cons s l =>
    have hs := lowest_isSome l (minOpt e s.nextResend)
    simp only [reduceCtorEq, and_false, iff_false]
    intro hn
    rw [show lowest e (s :: l) = lowest (some (minOpt e s.nextResend)) l from rfl] at hn
    simp [hn] at hs

theorem minOpt_le_left {e : Option Nat} {t t₀ : Nat} (h : t₀ ∈ e) : minOpt e t ≤ t₀ := by
  cases e with
  | none => cases h
  | some e₀ => cases h; exact Nat.min_le_left _ _

theorem minOpt_le_right (e : Option Nat) (t : Nat) : minOpt e t ≤ t := by
  cases e with
  | none => exact Nat.le_refl _
  | some e₀ => exact Nat.min_le_right _ _

theorem lowest_le : ∀ {l : List Stored} {e : Option Nat} {t : Nat}, lowest e l = some t →
    (∀ t₀ ∈ e, t ≤ t₀) ∧ ∀ s ∈ l, t ≤ s.nextResend
  | [], e, t, h => ⟨fun t₀ ht₀ => by simp_all, by simp⟩
  | x :: l, e, t, h => by
    obtain ⟨h1, h2⟩ := lowest_le (l := l) h
    have hx : t ≤ minOpt e x.nextResend := h1 _ rfl
    refine ⟨fun t₀ ht₀ => Nat.le_trans hx (minOpt_le_left ht₀), fun s hs => ?_⟩
    rcases List.mem_cons.1 hs with rfl | hs
    · exact Nat.le_trans hx (minOpt_le_right e _)
    · exact h2 s hs

/-! ## One pass, message by message -/

theorem visit_passes {kept : List Stored} {pass : ResendPass} {e : Option Nat} {s : Stored}
    {acc : List Stored × ResendPass × Option Nat} (h : visit now r rtt (kept, pass, e) s = .ok acc) :
    ∃ o, Passes now r rtt s o ∧ acc = (kept ++ o.toList,
      { resent := pass.resent ++ if resends now r s then [(s.msg, s.seq)] else [],
        dropped := pass.dropped ++ if drops now r s then [s.msg] else [] }, lowest e o.toList) := by
  simp only [visit] at h
  by_cases h1 : s.nextResend > now
  · simp only [h1, if_true, pure, Except.pure, Except.ok.injEq] at h
    subst h
    refine ⟨some s, .wait h1, ?_⟩
    have : resends now r s = false := by simp [resends]; omega
    have : drops now r s = false := by simp [drops]; omega
    simp_all [lowest]
  · by_cases h2 : s.sends ≥ r.maxSends
    · simp only [h1, h2, if_true, if_false, pure, Except.pure, Except.ok.injEq] at h
      subst h
      refine ⟨none, .drop (by omega) h2, ?_⟩
      have : resends now r s = false := by simp [resends]; omega
      have : drops now r s = true := by simp [drops]; omega
      simp_all
    · simp only [h1, h2, if_false, bind, Except.bind] at h
      split at h
      · cases h
      · rename_i d hd
        split at h
        · cases h
        · rename_i t ht
          simp only [pure, Except.pure, Except.ok.injEq] at h
          subst h
          refine ⟨_, .resend (by omega) (by omega) hd ht, ?_⟩
          have : resends now r s = true := by simp [resends]; omega
          have : drops now r s = false := by simp [drops]; omega
          simp_all [lowest]

theorem foldlM_visit_passes (l : List Stored) : ∀ {kept : List Stored} {pass : ResendPass}
    {e : Option Nat} {acc : List Stored × ResendPass × Option Nat},
    l.foldlM (visit now r rtt) (kept, pass, e) = .ok acc →
    ∃ os, List.Forall₂ (Passes now r rtt) l os ∧ acc.1 = kept ++ os.filterMap id ∧
      acc.2.1.resent = pass.resent ++ (l.filter (resends now r)).map (fun s => (s.msg, s.seq)) ∧
      acc.2.1.dropped = pass.dropped ++ (l.filter (drops now r)).map (·.msg) ∧
      acc.2.2 = lowest e (os.filterMap id) := by
  induction l with
  | nil =>
    intro kept pass e acc h
    cases h
    exact ⟨[], .nil, by simp, by simp, by simp, rfl⟩
  | cons s l ih =>
    intro kept pass e acc h
    simp only [List.foldlM_cons, bind, Except.bind] at h
    split at h
    · cases h
    · rename_i acc₁ h₁
      obtain ⟨o, ho, rfl⟩ := visit_passes h₁
      obtain ⟨os, hos, h1, h2, h3, h4⟩ := ih h
      refine ⟨o :: os, .cons ho hos, ?_, ?_, ?_, ?_⟩
      · rw [h1]
        cases o <;> simp
      · rw [h2]
        cases hs : resends now r s <;> simp [hs]
      · rw [h3]
        cases hs : drops now r s <;> simp [hs]
      · rw [h4]
        cases o <;> rfl

theorem foldlM_passList (L : List (List Stored)) : ∀ {done : Array (List Stored)} {pass : ResendPass}
    {e : Option Nat} {acc : Array (List Stored) × ResendPass × Option Nat},
    L.foldlM (passList now r rtt) (done, pass, e) = .ok acc →
    ∃ oss, List.Forall₂ (List.Forall₂ (Passes now r rtt)) L oss ∧
      acc.1.toList = done.toList ++ oss.map (·.filterMap id) ∧
      acc.2.1.resent = pass.resent ++ (L.flatten.filter (resends now r)).map (fun s => (s.msg, s.seq)) ∧
      acc.2.1.dropped = pass.dropped ++ (L.flatten.filter (drops now r)).map (·.msg) ∧
      acc.2.2 = lowest e (oss.map (·.filterMap id)).flatten := by
  induction L with
  | nil =>
    intro done pass e acc h
    cases h
    exact ⟨[], .nil, by simp, by simp, by simp, rfl⟩
  | cons l L ih =>
    intro done pass e acc h
    simp only [List.foldlM_cons, bind, Except.bind] at h
    split at h
    · cases h
    · rename_i acc₁ h₁
      simp only [passList, bind, Except.bind] at h₁
      split at h₁
      · cases h₁
      · rename_i acc₂ h₂
        simp only [pure, Except.pure, Except.ok.injEq] at h₁
        subst h₁
        obtain ⟨os, hos, h1, h2, h3, h4⟩ := foldlM_visit_passes l h₂
        obtain ⟨oss, hoss, k1, k2, k3, k4⟩ := ih h
        refine ⟨os :: oss, .cons hos hoss, ?_, ?_, ?_, ?_⟩
        · simp [k1, h1]
        · simp [k2, h2, List.filter_append]
        · simp [k3, h3, List.filter_append]
        · simp [k4, h4, lowest_append]

theorem scan_passes {pass : ResendPass} {w' : SendWindow} (h : w.scan now r rtt = .ok (pass, w')) :
    ∃ oss, List.Forall₂ (List.Forall₂ (Passes now r rtt)) w.stored.toList oss ∧
      w'.stored.toList = oss.map (·.filterMap id) ∧
      pass.resent = (w.stored.toList.flatten.filter (resends now r)).map (fun s => (s.msg, s.seq)) ∧
      pass.dropped = (w.stored.toList.flatten.filter (drops now r)).map (·.msg) ∧
      w'.earliest = lowest none w'.stored.toList.flatten ∧
      w'.window = w.window ∧ w'.nextSeq = w.nextSeq := by
  simp only [scan, bind, Except.bind] at h
  split at h
  · cases h
  · rename_i acc hacc
    rw [← Array.foldlM_toList] at hacc
    obtain ⟨oss, hoss, h1, h2, h3, h4⟩ := foldlM_passList _ hacc
    simp only [pure, Except.pure, Except.ok.injEq, Prod.mk.injEq] at h
    obtain ⟨rfl, rfl⟩ := h
    refine ⟨oss, hoss, by simpa using h1, by simpa using h2, by simpa using h3, ?_, rfl, rfl⟩
    simpa [h1] using h4

/-! ## A pass with nothing due -/

theorem foldlM_visit_wait (l : List Stored) (hl : ∀ s ∈ l, now < s.nextResend) :
    ∀ {kept : List Stored} {pass : ResendPass} {e : Option Nat},
    l.foldlM (visit now r rtt) (kept, pass, e) = .ok (kept ++ l, pass, lowest e l) := by
  induction l with
  | nil => intro kept pass e; simp [pure, Except.pure]
  | cons s l ih =>
    intro kept pass e
    have hs : s.nextResend > now := hl s (by simp)
    simp only [List.foldlM_cons, visit, hs, if_true, pure, Except.pure, bind, Except.bind]
    rw [ih fun x hx => hl x (by simp [hx])]
    simp [lowest]

theorem foldlM_passList_wait (L : List (List Stored)) (hL : ∀ s ∈ L.flatten, now < s.nextResend) :
    ∀ {done : Array (List Stored)} {pass : ResendPass} {e : Option Nat},
    L.foldlM (passList now r rtt) (done, pass, e) =
      .ok ((done.toList ++ L).toArray, pass, lowest e L.flatten) := by
  induction L with
  | nil => intro done pass e; simp [pure, Except.pure]
  | cons l L ih =>
    intro done pass e
    simp only [List.foldlM_cons, passList, bind, Except.bind,
      foldlM_visit_wait l (fun s hs => hL s (by simp [hs]))]
    simp only [List.nil_append, pure, Except.pure]
    rw [ih fun s hs => hL s (by simp [hs])]
    simp [lowest_append]

theorem scan_wait (h : ∀ s ∈ w.stored.toList.flatten, now < s.nextResend) :
    w.scan now r rtt = .ok ({}, { w with earliest := lowest none w.stored.toList.flatten }) := by
  simp only [scan, ← Array.foldlM_toList, foldlM_passList_wait _ h, bind, Except.bind, pure,
    Except.pure]
  simp

/-! ## The earliest resend time -/

def all (w : SendWindow) : List Stored := w.stored.toList.flatten

/-- The earliest resend time is what a pass relies on to skip its work: none exactly when
nothing is stored, else no later than the resend time of any stored message. The window keeps
one list per type number. -/
structure Timely (w : SendWindow) : Prop where
  size : w.stored.size = Kind.count
  none_iff : w.earliest = none ↔ w.all = []
  below : ∀ t ∈ w.earliest, ∀ s ∈ w.all, t ≤ s.nextResend

theorem Timely.waits (hw : w.Timely) (hp : w.passes now = false) : ∀ s ∈ w.all, now < s.nextResend := by
  intro s hs
  unfold passes at hp
  split at hp
  · rename_i t he
    have := hw.below t he s hs
    simp at hp
    omega
  · rename_i he
    rw [hw.none_iff.1 he] at hs
    cases hs

theorem Timely.resendDue_eq (hw : w.Timely) (now : Nat) (r : ResendSchedule) (rtt : Nat) :
    (w.resendDue now r rtt).map (fun x => (x.1, { x.2 with earliest := none })) =
      (w.scan now r rtt).map (fun x => (x.1, { x.2 with earliest := none })) := by
  cases hp : w.passes now
  · rw [resendDue_of_not_passes hp, scan_wait (hw.waits hp)]
    rfl
  · rw [resendDue_of_passes hp]

theorem mem_all {s : Stored} {raw : Nat} (h : s ∈ w.storedOf raw) : s ∈ w.all := by
  simp only [storedOf, Array.getD_eq_getD_getElem?] at h
  simp only [all, List.mem_flatten]
  cases hr : w.stored[raw]? with
  | none => simp [hr] at h
  | some l => exact ⟨l, Array.mem_toList_iff.mpr (Array.mem_of_getElem? hr), by simpa [hr] using h⟩

theorem mem_flatten_setIfInBounds {α : Type} {a : Array (List α)} {i : Nat} {x : List α} {s : α}
    (h : s ∈ (a.setIfInBounds i x).toList.flatten) : s ∈ a.toList.flatten ∨ s ∈ x := by
  rw [Array.toList_setIfInBounds, List.mem_flatten] at h
  obtain ⟨l, hl, hs⟩ := h
  rcases List.mem_or_eq_of_mem_set hl with hl | rfl
  · exact .inl (List.mem_flatten.2 ⟨l, hl, hs⟩)
  · exact .inr hs

theorem mem_flatten_setIfInBounds_self {α : Type} {a : Array (List α)} {i : Nat} {x : List α}
    {s : α} (hi : i < a.size) (h : s ∈ x) : s ∈ (a.setIfInBounds i x).toList.flatten := by
  rw [Array.toList_setIfInBounds, List.mem_flatten]
  exact ⟨x, List.mem_set (by simpa using hi) x, h⟩

theorem store_cases {m : Queued} {seq : Seq} {now rtt : Nat} {w' : SendWindow}
    (h : w.store m seq now r rtt = .ok w') :
    ∃ raw d t, m.kind.slot = .ok raw ∧ r.delay 1 rtt = .ok d ∧ Span.after now d = .ok t ∧
      w' = { w with
        earliest := some (minOpt w.earliest t)
        stored := w.stored.setIfInBounds raw
          (w.storedOf raw ++ [{ msg := m, seq, sends := 1, nextResend := t }]) } := by
  simp only [store, bind, Except.bind] at h
  cases hr : m.kind.isReliable
  · simp [hr, throw, throwThe, MonadExceptOf.throw] at h
  · simp only [hr, Bool.not_true, Bool.false_eq_true, if_false] at h
    split at h
    · cases h
    · rename_i d hd
      split at h
      · cases h
      · rename_i t ht
        split at h
        · cases h
        · rename_i raw hraw
          cases h
          exact ⟨raw, d, t, hraw, hd, ht, rfl⟩

/-! ## Sessions of calls -/

def call (r : ResendSchedule) (w : SendWindow) : WindowCall → Except Crash (ResendPass × SendWindow)
  | .assign k => do let (_, w) ← w.assign k; pure ({}, w)
  | .store m seq now rtt => do pure ({}, ← w.store m seq now r rtt)
  | .resend now rtt => w.resendDue now r rtt
  | .ack seq raw => pure ({}, (w.ack seq raw).2)
  | .clear => pure ({}, w.clear.2)

theorem call_assign {k : Kind} {p : ResendPass} {w' : SendWindow} (h : w.call r (.assign k) = .ok (p, w')) :
    ∃ seq, w.assign k = .ok (seq, w') ∧ p = {} := by
  simp only [call, bind, Except.bind] at h
  split at h
  · cases h
  · rename_i x hx
    cases h
    exact ⟨x.1, hx, rfl⟩

theorem call_store {m : Queued} {seq : Seq} {now rtt : Nat} {p : ResendPass} {w' : SendWindow}
    (h : w.call r (.store m seq now rtt) = .ok (p, w')) : w.store m seq now r rtt = .ok w' ∧ p = {} := by
  simp only [call, bind, Except.bind] at h
  split at h
  · cases h
  · rename_i x hx
    cases h
    exact ⟨hx, rfl⟩

/-- The calls of a session under one schedule, each with the window it was made on and what it
did, from `w` to `w'`. -/
inductive Session (r : ResendSchedule) :
    SendWindow → List (SendWindow × WindowCall × ResendPass) → SendWindow → Prop
  | nil (w : SendWindow) : Session r w [] w
  | cons {w w₁ w₂ : SendWindow} {c : WindowCall} {p : ResendPass}
      {log : List (SendWindow × WindowCall × ResendPass)} :
      w.call r c = .ok (p, w₁) → Session r w₁ log w₂ → Session r w ((w, c, p) :: log) w₂

def runCalls (r : ResendSchedule) : SendWindow → List WindowCall →
    Except Crash (List (SendWindow × WindowCall × ResendPass) × SendWindow)
  | w, [] => pure ([], w)
  | w, c :: cs => do
    let (p, w₁) ← w.call r c
    let (log, w₂) ← runCalls r w₁ cs
    pure ((w, c, p) :: log, w₂)

theorem Session.of_runCalls : ∀ {w : SendWindow} {cs : List WindowCall}
    {log : List (SendWindow × WindowCall × ResendPass)} {w' : SendWindow},
    runCalls r w cs = .ok (log, w') → Session r w log w'
  | w, [], log, w', h => by
    cases h
    exact .nil w
  | w, c :: cs, log, w', h => by
    simp only [runCalls, bind, Except.bind] at h
    split at h
    · cases h
    · rename_i x hx
      split at h
      · cases h
      · rename_i y hy
        cases h
        exact .cons hx (Session.of_runCalls hy)

def Reachable (w : SendWindow) : Prop :=
  ∃ r n log, Session r { window := n } log w

theorem all_isEmpty_iff {a : Array (List Stored)} :
    a.all (·.isEmpty) = true ↔ a.toList.flatten = [] := by
  simp only [Array.all_eq_true_iff_forall_mem, List.isEmpty_iff, List.flatten_eq_nil_iff,
    Array.mem_toList_iff]

namespace Timely

theorem fresh (n : Nat) : ({ window := n } : SendWindow).Timely where
  size := by simp [Kind.count]
  none_iff := by simp [all]
  below t ht := by cases ht

theorem store (hw : w.Timely) {m : Queued} {seq : Seq} {now rtt : Nat} {w' : SendWindow}
    (h : w.store m seq now r rtt = .ok w') : w'.Timely := by
  obtain ⟨raw, d, t, hraw, -, -, rfl⟩ := store_cases h
  have hlt : raw < w.stored.size := hw.size ▸ slot_lt hraw
  refine ⟨by simpa using hw.size, ?_, ?_⟩
  · -- the new message is stored, and the earliest time is set
    simp only [reduceCtorEq, false_iff]
    intro hnil
    have := mem_flatten_setIfInBounds_self hlt
      (List.mem_append_right (w.storedOf raw) (List.mem_singleton_self
        ({ msg := m, seq, sends := 1, nextResend := t } : Stored)))
    simp only [all] at hnil
    rw [hnil] at this
    cases this
  · -- the earliest time is no later than the old earliest time, nor than the new message's
    have hold : ∀ s ∈ w.all, minOpt w.earliest t ≤ s.nextResend := by
      intro s hs
      obtain ⟨e, he⟩ := Option.ne_none_iff_exists'.1 fun he => by simp [hw.none_iff.1 he] at hs
      exact Nat.le_trans (minOpt_le_left he) (hw.below e he s hs)
    intro t' ht' s hs
    cases ht'
    rcases mem_flatten_setIfInBounds hs with hs | hs
    · exact hold s hs
    · rcases List.mem_append.1 hs with hs | hs
      · exact hold s (mem_all hs)
      · rw [List.mem_singleton.1 hs]
        exact minOpt_le_right _ _

theorem scan (hw : w.Timely) {now rtt : Nat} {p : ResendPass} {w' : SendWindow}
    (h : w.scan now r rtt = .ok (p, w')) : w'.Timely := by
  obtain ⟨oss, hoss, hst, -, -, he, -, -⟩ := scan_passes h
  refine ⟨?_, ?_, ?_⟩
  · rw [← Array.length_toList, hst, List.length_map, ← hoss.length_eq, Array.length_toList, hw.size]
  · rw [he, lowest_eq_none]
    simp [all]
  · intro t ht s hs
    rw [he] at ht
    exact (lowest_le ht).2 s hs

theorem resendDue (hw : w.Timely) {now rtt : Nat} {p : ResendPass} {w' : SendWindow}
    (h : w.resendDue now r rtt = .ok (p, w')) : w'.Timely := by
  cases hp : w.passes now
  · rw [resendDue_of_not_passes hp] at h
    cases h
    exact hw
  · rw [resendDue_of_passes hp] at h
    exact hw.scan h

theorem ack (hw : w.Timely) (seq : Seq) (raw : Nat) : (w.ack seq raw).2.Timely := by
  unfold SendWindow.ack
  split
  · exact hw
  · dsimp only
    split
    · rename_i i hi
      have hlen : i < (w.storedOf raw).length := by
        rw [List.findIdx?_eq_some_iff_getElem] at hi
        exact hi.1
      -- the acknowledged message leaves; what stays was stored before
      have hsub : ∀ s, s ∈ (w.stored.setIfInBounds raw ((w.storedOf raw).eraseIdx i)).toList.flatten →
          s ∈ w.all := by
        intro s hs
        rcases mem_flatten_setIfInBounds hs with hs | hs
        · exact hs
        · exact mem_all (List.mem_of_mem_eraseIdx hs)
      have hnonempty : w.all ≠ [] := fun h =>
        absurd (h ▸ mem_all (List.getElem_mem hlen)) (List.not_mem_nil)
      split
      · rename_i hempty
        refine ⟨by simpa using hw.size, ?_, fun t ht => by cases ht⟩
        simpa [all] using all_isEmpty_iff.1 hempty
      · rename_i hempty
        refine ⟨by simpa using hw.size, ?_, fun t ht s hs => hw.below t ht s (hsub s hs)⟩
        constructor
        · intro he
          exact absurd (hw.none_iff.1 he) hnonempty
        · intro hnil
          exact absurd (all_isEmpty_iff.2 hnil) hempty
    · exact hw

theorem clear (w : SendWindow) : w.clear.2.Timely where
  size := by simp [SendWindow.clear, Kind.count]
  none_iff := by simp [SendWindow.clear, all]
  below t ht := by cases ht

theorem assign (hw : w.Timely) {k : Kind} {seq : Option Seq} {w' : SendWindow}
    (h : w.assign k = .ok (seq, w')) : w'.Timely := by
  rcases assign_cases h with ⟨-, -, rfl⟩ | ⟨raw, -, -, -, rfl⟩
  · exact hw
  · exact ⟨hw.size, hw.none_iff, hw.below⟩

theorem call (hw : w.Timely) {c : WindowCall} {p : ResendPass} {w' : SendWindow}
    (h : w.call r c = .ok (p, w')) : w'.Timely := by
  cases c with
  | assign k =>
    obtain ⟨seq, hx, -⟩ := call_assign h
    exact hw.assign hx
  | store m seq now rtt => exact hw.store (call_store h).1
  | resend now rtt => exact hw.resendDue h
  | ack seq raw =>
    cases h
    exact hw.ack seq raw
  | clear =>
    cases h
    exact clear w

end Timely

theorem Session.timely {log : List (SendWindow × WindowCall × ResendPass)} {w' : SendWindow}
    (hs : Session r w log w') (hw : w.Timely) : w'.Timely := by
  -- each call keeps the earliest resend time timely
  induction hs with
  | nil => exact hw
  | cons hc _ ih => exact ih (hw.call hc)

theorem Reachable.timely (h : w.Reachable) : w.Timely := by
  obtain ⟨r, n, log, hs⟩ := h
  exact hs.timely (Timely.fresh n)

/-- On every window a session reaches, a resend pass does exactly what a pass over every stored
message does, the earliest resend time it leaves apart: the same messages resent in the same
order, the same messages dropped, the same stored lists. This rests on the earliest resend time
being timely on every such window. -/
theorem resendDue_as_full_scan (h : w.Reachable) :
    w.Timely ∧ ∀ now r rtt, (w.resendDue now r rtt).map (fun x => (x.1, { x.2 with earliest := none })) =
      (w.scan now r rtt).map (fun x => (x.1, { x.2 with earliest := none })) :=
  ⟨h.timely, h.timely.resendDue_eq⟩

theorem resendDue_as_full_scan_stale :
    ∃ w : SendWindow, w.Reachable ∧ w.earliest = some (Span.ofMillis 25) ∧
      w.all.map (·.nextResend) = [Span.ofMillis 125] ∧ w.Timely ∧
      (w.resendDue (Span.ofMillis 10) {} 0).map (fun x => (x.1, { x.2 with earliest := none })) =
        (w.scan (Span.ofMillis 10) {} 0).map (fun x => (x.1, { x.2 with earliest := none })) := by
  have h : (runCalls {} { window := 64 }
      [.store ⟨⟨0, [1], 1⟩, .user .reliableOrdered 0, none⟩ (Seq.ofNat 0) 0 0,
        .store ⟨⟨1, [2], 1⟩, .user .reliableOrdered 0, none⟩ (Seq.ofNat 1) (Span.ofMillis 100) 0,
        .ack (Seq.ofNat 0) 68]).toOption.map (fun x => (x.2.earliest, x.2.all.map (·.nextResend))) =
      some (some (Span.ofMillis 25), [Span.ofMillis 125]) := by decide +kernel
  generalize hr : runCalls _ _ _ = x at h
  cases x with
  | error e => cases h
  | ok v =>
    obtain ⟨log, w⟩ := v
    simp only [Except.toOption, Option.map_some, Option.some.injEq, Prod.mk.injEq] at h
    have hw : w.Reachable := ⟨{}, 64, log, Session.of_runCalls hr⟩
    obtain ⟨ht, hag⟩ := resendDue_as_full_scan hw
    exact ⟨w, hw, h.1, h.2, ht, hag _ _ _⟩

end SendWindow
end ReliableUdp
