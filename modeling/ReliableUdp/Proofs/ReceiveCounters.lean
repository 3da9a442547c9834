import Mathlib.Data.List.Find
import ReliableUdp.Engine.ReceiveWindow
import ReliableUdp.Proofs.SeqWindow

/-!
# The receive window against unbounded counters

The specification's receiver sees the unbounded indices `0, 1, 2, …` of each kind and keeps a
position per kind (`Track`), releasing, remembering or dropping what arrives by its delivery
method. `Abstracts` says the window is that ledger folded into the sequence space.
-/

namespace ReliableUdp

structure Arrival where
  method : Delivery
  channel : Nat
  valid : channel < method.channels
  index : Nat
  fragment : Option FragmentTag := none
  data : Bytes
  time : Nat := 0

namespace Arrival

def kind (a : Arrival) : Kind := .user a.method a.channel

def raw (a : Arrival) : Nat := a.kind.toRaw

def inbound (a : Arrival) : Inbound :=
  { kind := a.kind, seq := if a.kind.hasSeq then some (Seq.ofNat a.index) else none,
    fragment := a.fragment, data := a.data }

end Arrival

/-- What the specification keeps for one kind. -/
structure Track where
  pos : Nat := 0
  early : List Nat := []
  held : List (Nat × Inbound) := []

namespace Track

def skip (early : List Nat) (i : Nat) : Nat → List Nat × Nat
  | 0 => (early, i)
  | fuel + 1 => if i ∈ early then skip (early.erase i) (i + 1) fuel else (early, i)

def release (held : List (Nat × Inbound)) (i : Nat) :
    Nat → List Inbound × List (Nat × Inbound) × Nat
  | 0 => ([], held, i)
  | fuel + 1 =>
    match held.find? (·.1 == i) with
    | some (_, m) =>
      let (more, rest, next) := release (held.filter (·.1 != i)) (i + 1) fuel
      (m :: more, rest, next)
    | none => ([], held, i)

/-- The specification's verdict on the `i`-th message `m` of a kind sent with `method`. -/
def receive (t : Track) (method : Delivery) (i : Nat) (m : Inbound) :
    Verdict × List Inbound × Track :=
  match method with
  | .unreliable => (.accepted, [m], t)
  | .unreliableSequenced | .reliableSequenced =>
    if i < t.pos then (.late, [], t) else (.accepted, [m], { t with pos := i + 1 })
  | .reliableUnordered =>
    if i < t.pos ∨ i ∈ t.early then (.duplicate, [], t)
    else if t.pos < i then (.accepted, [m], { t with early := t.early ++ [i] })
    else
      let (early, pos) := skip t.early (i + 1) (t.early.length + 1)
      (.accepted, [m], { t with pos, early })
  | .reliableOrdered =>
    if i < t.pos ∨ i ∈ t.held.map (·.1) then (.duplicate, [], t)
    else if t.pos < i then (.withheld, [], { t with held := t.held ++ [(i, m)] })
    else
      let (more, held, pos) := release t.held (i + 1) (t.held.length + 1)
      (.accepted, m :: more, { t with pos, held })

def Ahead (t : Track) (i : Nat) : Prop := t.pos < i ∧ i < t.pos + seqSpace / 2

end Track

structure Ledger where
  track : Nat → Track := fun _ => {}

namespace Ledger

def step (σ : Ledger) (a : Arrival) : (Verdict × List Inbound) × Ledger :=
  let (v, out, t) := (σ.track a.raw).receive a.method a.index a.inbound
  ((v, out), { track := Function.update σ.track a.raw t })

def run (σ : Ledger) : List Arrival → List (Verdict × List Inbound) × Ledger
  | [] => ([], σ)
  | a :: as =>
    let (o, σ) := σ.step a
    let (os, σ) := σ.run as
    (o :: os, σ)

def InWindow (σ : Ledger) (a : Arrival) : Prop :=
  a.method ≠ .unreliable →
    (σ.track a.raw).pos ≤ a.index + seqSpace / 2 ∧ a.index < (σ.track a.raw).pos + seqSpace / 2

/-- Every arrival lies within the window at the moment it arrives. -/
def Admissible (σ : Ledger) : List Arrival → Prop
  | [] => True
  | a :: as => σ.InWindow a ∧ (σ.step a).2.Admissible as

instance (σ : Ledger) (a : Arrival) : Decidable (σ.InWindow a) :=
  inferInstanceAs (Decidable (_ → _ ∧ _))

instance decAdmissible (σ : Ledger) : (as : List Arrival) → Decidable (σ.Admissible as)
  | [] => isTrue trivial
  | a :: as => @instDecidableAnd _ _ (inferInstanceAs (Decidable (σ.InWindow a)))
      (decAdmissible (σ.step a).2 as)

end Ledger

namespace ReceiveWindow

def receiveAll (w : ReceiveWindow) : List Arrival →
    Except Crash (List (Verdict × List Inbound) × ReceiveWindow)
  | [] => .ok ([], w)
  | a :: as => do
    let (v, out, w) ← w.receive a.inbound a.time
    let (os, w) ← w.receiveAll as
    pure ((v, out) :: os, w)

end ReceiveWindow

def foldHeld (p : Nat × Inbound) : Seq × Inbound := (Seq.ofNat p.1, p.2)

def unorderedRaw : Nat := Delivery.reliableUnordered.base

def orderedRaw (c : Nat) : Nat := Delivery.reliableOrdered.base + c

structure Folds (w : ReceiveWindow) (r : Nat) (t : Track) : Prop where
  expected : w.expectedOf r = Seq.ofNat t.pos
  early : r = unorderedRaw →
    w.early = t.early.map Seq.ofNat ∧ t.early.Nodup ∧ ∀ i ∈ t.early, t.Ahead i
  held : ∀ c < 32, r = orderedRaw c →
    w.withheldOf c = t.held.map foldHeld ∧ ∀ p ∈ t.held, t.Ahead p.1

/-- The receive window is the specification's ledger folded into the sequence space. -/
structure Abstracts (σ : Ledger) (w : ReceiveWindow) : Prop where
  expected_size : w.expected.size = Kind.count
  withheld_size : w.withheld.size = 32
  folds : ∀ r < Kind.count, Folds w r (σ.track r)

namespace Track

theorem skip_spec {early : List Nat} (i fuel : Nat) (hn : early.Nodup) (hi : ∀ x ∈ early, i ≤ x)
    (hf : early.length < fuel) :
    i ≤ (skip early i fuel).2 ∧ (skip early i fuel).1.Nodup ∧
      ∀ x ∈ (skip early i fuel).1, x ∈ early ∧ (skip early i fuel).2 < x := by
  induction fuel generalizing early i with
  | zero => omega
  | succ fuel ih =>
    by_cases hm : i ∈ early
    · have hlen : (early.erase i).length < fuel := by
        have := List.length_pos_of_mem hm
        rw [List.length_erase_of_mem hm]
        omega
      have hi' : ∀ x ∈ early.erase i, i + 1 ≤ x := by
        intro x hx
        have hx' := (hn.mem_erase_iff).1 hx
        have := hi x hx'.2
        omega
      obtain ⟨hle, hnd, hmem⟩ := ih (i + 1) (hn.erase i) hi' hlen
      simp only [skip, hm, if_true]
      exact ⟨by omega, hnd, fun x hx => ⟨List.mem_of_mem_erase (hmem x hx).1, (hmem x hx).2⟩⟩
    · simp only [skip, hm, if_false]
      refine ⟨Nat.le_refl i, hn, fun x hx => ⟨hx, ?_⟩⟩
      have := hi x hx
      have : x ≠ i := fun h => hm (h ▸ hx)
      omega

theorem release_spec {held : List (Nat × Inbound)} (i fuel : Nat) (hi : ∀ p ∈ held, i ≤ p.1)
    (hf : held.length < fuel) :
    i ≤ (release held i fuel).2.2 ∧
      ∀ p ∈ (release held i fuel).2.1, p ∈ held ∧ (release held i fuel).2.2 < p.1 := by
  induction fuel generalizing held i with
  | zero => omega
  | succ fuel ih =>
    cases hfind : held.find? (·.1 == i) with
    | some q =>
      obtain ⟨k, m⟩ := q
      have hq := List.mem_of_find?_eq_some hfind
      have hk : k = i := by simpa using List.find?_some hfind
      have hlen : (held.filter (·.1 != i)).length < fuel := by
        have : (held.filter (·.1 != i)).length < held.length :=
          List.length_filter_lt_length_iff_exists.2 ⟨(k, m), hq, by simp [hk]⟩
        omega
      have hi' : ∀ p ∈ held.filter (·.1 != i), i + 1 ≤ p.1 := by
        intro p hp
        rw [List.mem_filter] at hp
        have := hi p hp.1
        have : p.1 ≠ i := by simpa using hp.2
        omega
      obtain ⟨hle, hmem⟩ := ih (i + 1) hi' hlen
      rcases hr : release (held.filter (·.1 != i)) (i + 1) fuel with ⟨more, rest, next⟩
      rw [hr] at hle hmem
      dsimp only at hle hmem
      simp only [release, hfind, hr]
      exact ⟨by omega, fun p hp => ⟨(List.mem_filter.1 (hmem p hp).1).1, (hmem p hp).2⟩⟩
    | none =>
      simp only [release, hfind]
      refine ⟨Nat.le_refl i, fun p hp => ⟨hp, ?_⟩⟩
      have := hi p hp
      have : p.1 ≠ i := by
        intro h
        have := List.find?_eq_none.1 hfind p hp
        simp [h] at this
      omega

end Track

/-! ## Folding indices into the sequence space -/

section Fold

variable {x i lo : Nat}

theorem ofNat_beq_ofNat (h₁ : x < i + seqSpace) (h₂ : i < x + seqSpace) :
    (Seq.ofNat x == Seq.ofNat i) = (x == i) := by
  rw [Bool.eq_iff_iff, beq_iff_eq, beq_iff_eq]
  exact Seq.ofNat_eq_ofNat_iff h₁ h₂

def Near (i : Nat) (l : List Nat) : Prop := ∀ x ∈ l, x < i + seqSpace ∧ i < x + seqSpace

theorem contains_map_ofNat {l : List Nat} (h : Near i l) :
    (l.map Seq.ofNat).contains (Seq.ofNat i) = true ↔ i ∈ l := by
  induction l with
  | nil => simp
  | cons x l ih =>
    have hx := h x List.mem_cons_self
    have hl : Near i l := fun y hy => h y (List.mem_cons_of_mem x hy)
    simp only [List.map_cons, List.contains_cons, Bool.or_eq_true, ih hl, List.mem_cons,
      beq_iff_eq, Seq.ofNat_eq_ofNat_iff hx.2 hx.1]

theorem erase_map_ofNat {l : List Nat} (h : Near i l) :
    (l.map Seq.ofNat).erase (Seq.ofNat i) = (l.erase i).map Seq.ofNat := by
  induction l with
  | nil => rfl
  | cons x l ih =>
    have hx := h x List.mem_cons_self
    have hl : Near i l := fun y hy => h y (List.mem_cons_of_mem x hy)
    simp only [List.map_cons, List.erase_cons, ofNat_beq_ofNat hx.1 hx.2]
    split <;> simp [ih hl]

theorem skipEarly_fold {early : List Nat} (i fuel : Nat)
    (he : ∀ x ∈ early, lo < x ∧ x < lo + seqSpace / 2)
    (hi : lo < i ∧ i ≤ lo + seqSpace / 2) :
    ReceiveWindow.skipEarly (early.map Seq.ofNat) (Seq.ofNat i) fuel =
      ((Track.skip early i fuel).1.map Seq.ofNat, Seq.ofNat (Track.skip early i fuel).2) := by
  induction fuel generalizing early i with
  | zero => rfl
  | succ fuel ih =>
    have hn : Near i early := fun x hx => by
      have := he x hx
      simp only [seqSpace] at this hi ⊢
      omega
    by_cases hm : i ∈ early
    · have hlt := (he i hm).2
      have he' : ∀ x ∈ early.erase i, lo < x ∧ x < lo + seqSpace / 2 :=
        fun x hx => he x (List.mem_of_mem_erase hx)
      simp only [ReceiveWindow.skipEarly, Track.skip, (contains_map_ofNat hn).2 hm, hm,
        if_true, erase_map_ofNat hn, Seq.ofNat_next]
      exact ih (i + 1) he' ⟨by omega, by omega⟩
    · have hc : ¬((early.map Seq.ofNat).contains (Seq.ofNat i) = true) :=
        fun h => hm ((contains_map_ofNat hn).1 h)
      simp only [ReceiveWindow.skipEarly, Track.skip, hc, hm, Bool.false_eq_true, if_false]

theorem find?_map_foldHeld {held : List (Nat × Inbound)}
    (hn : ∀ p ∈ held, p.1 < i + seqSpace ∧ i < p.1 + seqSpace) :
    (held.map foldHeld).find? (·.1 == Seq.ofNat i) = (held.find? (·.1 == i)).map foldHeld := by
  rw [List.find?_map]
  congr 1
  exact List.find?_congr fun p hp => ofNat_beq_ofNat (hn p hp).1 (hn p hp).2

theorem filter_map_foldHeld {held : List (Nat × Inbound)}
    (hn : ∀ p ∈ held, p.1 < i + seqSpace ∧ i < p.1 + seqSpace) :
    (held.map foldHeld).filter (·.1 != Seq.ofNat i) = (held.filter (·.1 != i)).map foldHeld := by
  rw [List.filter_map]
  congr 1
  refine List.filter_congr fun p hp => ?_
  simp only [Function.comp, foldHeld, bne, ofNat_beq_ofNat (hn p hp).1 (hn p hp).2]

theorem releaseWithheld_fold {held : List (Nat × Inbound)} (i fuel : Nat)
    (hh : ∀ p ∈ held, lo < p.1 ∧ p.1 < lo + seqSpace / 2) (hi : lo < i ∧ i ≤ lo + seqSpace / 2) :
    ReceiveWindow.releaseWithheld (held.map foldHeld) (Seq.ofNat i) fuel =
      ((Track.release held i fuel).1, (Track.release held i fuel).2.1.map foldHeld,
        Seq.ofNat (Track.release held i fuel).2.2) := by
  induction fuel generalizing held i with
  | zero => rfl
  | succ fuel ih =>
    have hn : ∀ p ∈ held, p.1 < i + seqSpace ∧ i < p.1 + seqSpace := fun p hp => by
      have := hh p hp
      simp only [seqSpace] at this hi ⊢
      omega
    cases hfind : held.find? (·.1 == i) with
    | some q =>
      obtain ⟨k, m⟩ := q
      have hk : k = i := by simpa using List.find?_some hfind
      have hlt := (hh (k, m) (List.mem_of_find?_eq_some hfind)).2
      have hh' : ∀ p ∈ held.filter (·.1 != i), lo < p.1 ∧ p.1 < lo + seqSpace / 2 :=
        fun p hp => hh p (List.mem_filter.1 hp).1
      have hrec := ih (i + 1) hh' ⟨by omega, by simp only at hk hlt; omega⟩
      simp only [ReceiveWindow.releaseWithheld, Track.release, find?_map_foldHeld hn, hfind,
        Option.map_some, foldHeld, filter_map_foldHeld hn, Seq.ofNat_next]
      rw [hrec]
    | none =>
      simp only [ReceiveWindow.releaseWithheld, Track.release, find?_map_foldHeld hn, hfind,
        Option.map_none]

end Fold

/-! ## The window's entries per type number -/

namespace ReceiveWindow

variable {w : ReceiveWindow} {r r' c c' : Nat} {s : Seq}

theorem expectedOf_setExpected_self (h : r < w.expected.size) :
    (w.setExpected r s).expectedOf r = s := by
  simp [setExpected, expectedOf, Array.getElem?_setIfInBounds_self_of_lt h]

theorem expectedOf_setExpected_ne (h : r ≠ r') :
    (w.setExpected r s).expectedOf r' = w.expectedOf r' := by
  simp [setExpected, expectedOf, Array.getElem?_setIfInBounds_ne h]

@[simp] theorem expectedOf_queueAck {now : Nat} :
    (w.queueAck s r now).expectedOf r' = w.expectedOf r' := rfl

@[simp] theorem early_queueAck {now : Nat} : (w.queueAck s r now).early = w.early := rfl

@[simp] theorem withheldOf_queueAck {now : Nat} :
    (w.queueAck s r now).withheldOf c = w.withheldOf c := rfl

@[simp] theorem withheld_queueAck {now : Nat} : (w.queueAck s r now).withheld = w.withheld := rfl

theorem withheldOf_set_self {l : List (Seq × Inbound)} (h : c < w.withheld.size) :
    ({ w with withheld := w.withheld.setIfInBounds c l } : ReceiveWindow).withheldOf c = l := by
  simp [withheldOf, Array.getElem?_setIfInBounds_self_of_lt h]

theorem withheldOf_set_ne {l : List (Seq × Inbound)} (h : c ≠ c') :
    ({ w with withheld := w.withheld.setIfInBounds c l } : ReceiveWindow).withheldOf c' =
      w.withheldOf c' := by
  simp [withheldOf, Array.getElem?_setIfInBounds_ne h]

end ReceiveWindow

def SameAt (w w' : ReceiveWindow) (r : Nat) : Prop :=
  w'.expectedOf r = w.expectedOf r ∧ (r = unorderedRaw → w'.early = w.early) ∧
    ∀ c < 32, r = orderedRaw c → w'.withheldOf c = w.withheldOf c

theorem Folds.of_sameAt {w w' : ReceiveWindow} {r : Nat} {t : Track} (h : Folds w r t)
    (hs : SameAt w w' r) : Folds w' r t where
  expected := hs.1.trans h.expected
  early hr := by rw [hs.2.1 hr]; exact h.early hr
  held c hc hr := by rw [hs.2.2 c hc hr]; exact h.held c hc hr

theorem Abstracts.update {σ : Ledger} {w w' : ReceiveWindow} {r : Nat} {t : Track}
    (h : Abstracts σ w) (hsz : w'.expected.size = Kind.count) (hwz : w'.withheld.size = 32)
    (hr : Folds w' r t) (hs : ∀ r' < Kind.count, r' ≠ r → SameAt w w' r') :
    Abstracts { track := Function.update σ.track r t } w' where
  expected_size := hsz
  withheld_size := hwz
  folds r' hr' := by
    by_cases he : r' = r
    · subst he
      simpa using hr
    · simpa [Function.update_of_ne he] using (h.folds r' hr').of_sameAt (hs r' hr' he)

theorem Abstracts.queueAck {σ : Ledger} {w : ReceiveWindow} (h : Abstracts σ w) (s : Seq)
    (r now : Nat) : Abstracts σ (w.queueAck s r now) :=
  ⟨h.expected_size, h.withheld_size, fun r hr =>
    ⟨(h.folds r hr).expected, (h.folds r hr).early, (h.folds r hr).held⟩⟩

theorem Ledger.update_self (σ : Ledger) (r : Nat) :
    ({ track := Function.update σ.track r (σ.track r) } : Ledger) = σ := by
  simp

theorem sameAt_setExpected {w : ReceiveWindow} {r r' : Nat} {s : Seq} (h : r' ≠ r) :
    SameAt w (w.setExpected r s) r' :=
  ⟨ReceiveWindow.expectedOf_setExpected_ne (Ne.symm h), fun _ => rfl, fun _ _ _ => rfl⟩

theorem unorderedRaw_ne_orderedRaw (c : Nat) : unorderedRaw ≠ orderedRaw c := by
  simp only [unorderedRaw, orderedRaw, Delivery.base]
  omega

end ReliableUdp
