import ReliableUdp.Proofs.ReceiveRefinement

/-!
# What the receive window hands over

On the specification's ledger, an ordered channel releases the first copies of `0, …, n - 1` in
order, and the unordered kind delivers each index once, before any copy is acknowledged. Through
the refinement these hold of the window while arrivals stay within half the space.
-/

namespace ReliableUdp

abbrev Received := Arrival × Verdict × List Inbound

def Arrived (as : List Arrival) (r i : Nat) : Prop := ∃ a ∈ as, a.raw = r ∧ a.index = i

instance (as : List Arrival) (r i : Nat) : Decidable (Arrived as r i) :=
  inferInstanceAs (Decidable (∃ a ∈ as, _))

def firstCopy (as : List Arrival) (r i : Nat) : Option Inbound :=
  (as.find? fun a => a.raw = r ∧ a.index = i).map (·.inbound)

def deliveredOn (r : Nat) (hist : List Received) : List Inbound :=
  hist.flatMap fun p => if p.1.raw = r then p.2.2 else []

def deliveredIndices (r : Nat) (hist : List Received) : List Nat :=
  (hist.filter fun p => p.1.raw == r && !p.2.2.isEmpty).map (·.1.index)

namespace Ledger

theorem step_track (σ : Ledger) (a : Arrival) :
    (σ.step a).2.track =
      Function.update σ.track a.raw ((σ.track a.raw).receive a.method a.index a.inbound).2.2 :=
  rfl

theorem step_out (σ : Ledger) (a : Arrival) :
    (σ.step a).1 = (((σ.track a.raw).receive a.method a.index a.inbound).1,
      ((σ.track a.raw).receive a.method a.index a.inbound).2.1) := rfl

theorem run_cons (σ : Ledger) (a : Arrival) (as : List Arrival) :
    σ.run (a :: as) = ((σ.step a).1 :: ((σ.step a).2.run as).1, ((σ.step a).2.run as).2) := rfl

theorem length_run (σ : Ledger) (as : List Arrival) : (σ.run as).1.length = as.length := by
  induction as generalizing σ with
  | nil => rfl
  | cons a as ih => simp [run, ih]

end Ledger

/-! ## Histories -/

section History

variable {as : List Arrival} {a : Arrival} {r i : Nat}

theorem arrived_append_singleton :
    Arrived (as ++ [a]) r i ↔ Arrived as r i ∨ (a.raw = r ∧ a.index = i) := by
  simp [Arrived, or_and_right, exists_or]

theorem firstCopy_eq_none (h : ¬ Arrived as r i) : firstCopy as r i = none := by
  simp only [firstCopy, Option.map_eq_none_iff, List.find?_eq_none, decide_eq_true_eq]
  exact fun a ha hm => h ⟨a, ha, hm⟩

theorem firstCopy_append_of_arrived (h : Arrived as r i) (bs : List Arrival) :
    firstCopy (as ++ bs) r i = firstCopy as r i := by
  obtain ⟨a, ha, hm⟩ := h
  have hs : (as.find? fun a => a.raw = r ∧ a.index = i).isSome :=
    List.find?_isSome.2 ⟨a, ha, by simpa using hm⟩
  obtain ⟨b, hb⟩ := Option.isSome_iff_exists.1 hs
  simp only [firstCopy, List.find?_append, hb, Option.some_or]

theorem firstCopy_append_singleton (h : ¬ Arrived as r a.index) (hr : a.raw = r) :
    firstCopy (as ++ [a]) r a.index = some a.inbound := by
  have hn : (as.find? fun a' => a'.raw = r ∧ a'.index = a.index) = none := by
    simp only [List.find?_eq_none, decide_eq_true_eq]
    exact fun b hb hm => h ⟨b, hb, hm⟩
  simp only [firstCopy, List.find?_append, hn, Option.none_or, List.find?_singleton, hr,
    and_self, decide_true, if_true, Option.map_some]

theorem firstCopy_snoc {hist : List Received} (h : Arrived (hist.map (·.1)) r i) (p : Received) :
    firstCopy ((hist ++ [p]).map (·.1)) r i = firstCopy (hist.map (·.1)) r i := by
  rw [List.map_append]
  exact firstCopy_append_of_arrived h _

theorem deliveredOn_append_singleton (hist : List Received) (p : Received) (r : Nat) :
    deliveredOn r (hist ++ [p]) = deliveredOn r hist ++ if p.1.raw = r then p.2.2 else [] := by
  simp [deliveredOn]

theorem deliveredIndices_append_singleton (hist : List Received) (p : Received) (r : Nat) :
    deliveredIndices r (hist ++ [p]) = deliveredIndices r hist ++
      if p.1.raw = r ∧ p.2.2 ≠ [] then [p.1.index] else [] := by
  simp only [deliveredIndices, List.filter_append, List.map_append, List.filter_cons,
    List.filter_nil]
  by_cases h : p.1.raw = r <;> by_cases he : p.2.2 = [] <;> simp [h, he]

theorem eq_append_cons_of_append_singleton {hist pre post : List Received} {p q : Received}
    (h : pre ++ q :: post = hist ++ [p]) :
    (pre = hist ∧ q = p ∧ post = []) ∨ ∃ post', post = post' ++ [p] ∧ hist = pre ++ q :: post' := by
  rcases List.eq_nil_or_concat post with rfl | ⟨post', b, rfl⟩
  · obtain ⟨h1, h2⟩ := List.append_inj' h rfl
    exact .inl ⟨h1, List.singleton_inj.1 h2, rfl⟩
  · have h' : (pre ++ q :: post') ++ [b] = hist ++ [p] := by simpa using h
    obtain ⟨h1, h2⟩ := List.append_inj' h' rfl
    obtain rfl := List.singleton_inj.1 h2
    exact .inr ⟨post', by simp, h1.symm⟩

end History

/-! ## The specification's loops -/

namespace Track

theorem skip_mem_iff (early : List Nat) (i fuel x : Nat) :
    x < (skip early i fuel).2 ∨ x ∈ (skip early i fuel).1 ↔ x < i ∨ x ∈ early := by
  induction fuel generalizing early i with
  | zero => simp [skip]
  | succ fuel ih =>
    by_cases hm : i ∈ early
    · simp only [skip, hm, if_true, ih]
      by_cases hx : x = i
      · subst hx
        simp [hm]
      · have hlt : x < i + 1 ↔ x < i := by omega
        rw [List.mem_erase_of_ne hx, hlt]
    · simp [skip, hm]

theorem le_release (held : List (Nat × Inbound)) (i fuel : Nat) :
    i ≤ (release held i fuel).2.2 := by
  induction fuel generalizing held i with
  | zero => simp [release]
  | succ fuel ih =>
    cases hfind : held.find? (·.1 == i) with
    | some q =>
      have := ih (held.filter (·.1 != i)) (i + 1)
      simp only [release, hfind]
      exact Nat.le_of_succ_le this
    | none => simp [release, hfind]

theorem release_mem_iff (held : List (Nat × Inbound)) (i fuel x : Nat) :
    x < (release held i fuel).2.2 ∨ x ∈ (release held i fuel).2.1.map (·.1) ↔
      x < i ∨ x ∈ held.map (·.1) := by
  induction fuel generalizing held i with
  | zero => simp [release]
  | succ fuel ih =>
    cases hfind : held.find? (·.1 == i) with
    | some q =>
      have hk : q.1 = i := by simpa using List.find?_some hfind
      have hq : i ∈ held.map (·.1) := List.mem_map.2 ⟨q, List.mem_of_find?_eq_some hfind, hk⟩
      simp only [release, hfind, ih]
      by_cases hx : x = i
      · subst hx
        simp [hq]
      · simp only [List.mem_map, List.mem_filter, bne_iff_ne, ne_eq] at hq ⊢
        constructor
        · rintro (h | ⟨p, ⟨hp, -⟩, rfl⟩)
          · exact .inl (by omega)
          · exact .inr ⟨p, hp, rfl⟩
        · rintro (h | ⟨p, hp, rfl⟩)
          · exact .inl (by omega)
          · exact .inr ⟨p, ⟨hp, hx⟩, rfl⟩
    | none => simp [release, hfind]

theorem release_delivers {held : List (Nat × Inbound)} (i fuel : Nat) {f : Nat → Option Inbound}
    (hf : ∀ p ∈ held, f p.1 = some p.2) :
    (release held i fuel).1.map some =
      (List.range' i ((release held i fuel).2.2 - i)).map f := by
  induction fuel generalizing held i with
  | zero => simp [release]
  | succ fuel ih =>
    cases hfind : held.find? (·.1 == i) with
    | some q =>
      obtain ⟨k, m⟩ := q
      have hk : k = i := by simpa using List.find?_some hfind
      have hm : f i = some m := hk ▸ hf (k, m) (List.mem_of_find?_eq_some hfind)
      have hrec := @ih (held.filter (·.1 != i)) (i + 1) fun p hp => hf p (List.mem_filter.1 hp).1
      have hle := le_release (held.filter (·.1 != i)) (i + 1) fuel
      rcases hr : release (held.filter (·.1 != i)) (i + 1) fuel with ⟨more, rest, next⟩
      rw [hr] at hrec hle
      dsimp only at hrec hle
      have hn : next - i = next - (i + 1) + 1 := by omega
      simp only [release, hfind, hr, List.map_cons, hn, List.range'_succ, hm, hrec]
    | none => simp [release, hfind]

end Track

/-! ## Ordered channels -/

/-- An ordered channel of type number `r` after the history `hist`: it released the first
copies of the indices below its position, in order; an index arrived exactly when it is below
the position or held; and it holds first copies of indices ahead of the position. -/
structure OrderedInv (r : Nat) (t : Track) (hist : List Received) : Prop where
  delivered : (deliveredOn r hist).map some = (List.range t.pos).map (firstCopy (hist.map (·.1)) r)
  arrived : ∀ x, Arrived (hist.map (·.1)) r x ↔ x < t.pos ∨ x ∈ t.held.map (·.1)
  held : ∀ p ∈ t.held, t.pos < p.1 ∧ firstCopy (hist.map (·.1)) r p.1 = some p.2

namespace OrderedInv

variable {r : Nat} {t : Track} {hist : List Received} {a : Arrival}

theorem init (r : Nat) : OrderedInv r {} [] where
  delivered := rfl
  arrived x := by simp [Arrived]
  held p hp := by simp at hp

theorem delivered_snoc (h : OrderedInv r t hist) {p : Received}
    (hp : (if p.1.raw = r then p.2.2 else []) = []) :
    (deliveredOn r (hist ++ [p])).map some =
      (List.range t.pos).map (firstCopy ((hist ++ [p]).map (·.1)) r) := by
  rw [deliveredOn_append_singleton, hp, List.append_nil, h.delivered]
  exact List.map_congr_left fun x hx =>
    (firstCopy_snoc ((h.arrived x).2 (.inl (List.mem_range.1 hx))) p).symm

theorem quiet (h : OrderedInv r t hist) (v : Verdict) (out : List Inbound)
    (ha : a.raw ≠ r ∨ (Arrived (hist.map (·.1)) r a.index ∧ out = [])) :
    OrderedInv r t (hist ++ [(a, v, out)]) := by
  have harr : ∀ x, Arrived ((hist ++ [(a, v, out)]).map (·.1)) r x ↔
      Arrived (hist.map (·.1)) r x := by
    intro x
    rw [List.map_append, List.map_singleton, arrived_append_singleton]
    constructor
    · rintro (hx | ⟨hr, rfl⟩)
      · exact hx
      · rcases ha with ha | ⟨ha, -⟩
        · exact absurd hr ha
        · exact ha
    · exact .inl
  refine ⟨h.delivered_snoc ?_, fun x => (harr x).trans (h.arrived x), fun p hp => ?_⟩
  · rcases ha with ha | ⟨-, rfl⟩
    · simp [ha]
    · simp
  · obtain ⟨hlt, hfc⟩ := h.held p hp
    exact ⟨hlt, (firstCopy_snoc ((h.arrived p.1).2 (.inr (List.mem_map_of_mem hp))) _).trans hfc⟩

theorem withhold (h : OrderedInv r t hist) (hr : a.raw = r)
    (hn : ¬ Arrived (hist.map (·.1)) r a.index) (hw : t.pos < a.index) :
    OrderedInv r { t with held := t.held ++ [(a.index, a.inbound)] }
      (hist ++ [(a, .withheld, [])]) := by
  refine ⟨h.delivered_snoc (by simp), fun x => ?_, fun p hp => ?_⟩
  · rw [List.map_append, List.map_singleton, arrived_append_singleton, h.arrived]
    simp only [hr, true_and, List.map_append, List.map_singleton, List.mem_append,
      List.mem_singleton]
    constructor
    · rintro ((hx | hx) | rfl)
      · exact .inl hx
      · exact .inr (.inl hx)
      · exact .inr (.inr rfl)
    · rintro (hx | hx | rfl)
      · exact .inl (.inl hx)
      · exact .inl (.inr hx)
      · exact .inr rfl
  · rcases List.mem_append.1 hp with hp | hp
    · obtain ⟨hlt, hfc⟩ := h.held p hp
      exact ⟨hlt, (firstCopy_snoc ((h.arrived p.1).2 (.inr (List.mem_map_of_mem hp))) _).trans hfc⟩
    · obtain rfl := List.mem_singleton.1 hp
      refine ⟨hw, ?_⟩
      rw [List.map_append, List.map_singleton]
      exact firstCopy_append_singleton hn hr

theorem accept (h : OrderedInv r t hist) (hr : a.raw = r) (hi : a.index = t.pos)
    {more : List Inbound} {rest : List (Nat × Inbound)} {n : Nat}
    (hrel : Track.release t.held (a.index + 1) (t.held.length + 1) = (more, rest, n)) :
    OrderedInv r { t with pos := n, held := rest } (hist ++ [(a, .accepted, a.inbound :: more)]) := by
  have hmap : (hist ++ [(a, Verdict.accepted, a.inbound :: more)]).map (·.1) =
      hist.map (·.1) ++ [a] := by simp
  have hnew : ¬ Arrived (hist.map (·.1)) r a.index := by
    rw [h.arrived, hi]
    rintro (hlt | hmem)
    · exact Nat.lt_irrefl _ hlt
    · obtain ⟨p, hp, hpe⟩ := List.mem_map.1 hmem
      have := (h.held p hp).1
      omega
  have hfirst : firstCopy (hist.map (·.1) ++ [a]) r t.pos = some a.inbound :=
    hi ▸ firstCopy_append_singleton hnew hr
  have hheld : ∀ p ∈ t.held, firstCopy (hist.map (·.1) ++ [a]) r p.1 = some p.2 := fun p hp => by
    rw [firstCopy_append_of_arrived ((h.arrived p.1).2 (.inr (List.mem_map_of_mem hp)))]
    exact (h.held p hp).2
  rw [hi] at hrel
  obtain ⟨hle, hrest⟩ := Track.release_spec (t.pos + 1) (t.held.length + 1)
    (fun p hp => (h.held p hp).1) (Nat.lt_succ_self _)
  have hmem := Track.release_mem_iff t.held (t.pos + 1) (t.held.length + 1)
  have hdel := Track.release_delivers (t.pos + 1) (t.held.length + 1) hheld
  rw [hrel] at hle hrest hmem hdel
  dsimp only at hle hrest hmem hdel
  refine ⟨?_, fun x => ?_, fun p hp => ?_⟩
  · -- the old prefix, then this message, then the held ones that follow it
    have hsplit : List.range n =
        List.range t.pos ++ t.pos :: List.range' (t.pos + 1) (n - (t.pos + 1)) := by
      have hn : n = t.pos + ((n - (t.pos + 1)) + 1) := by omega
      conv_lhs => rw [hn]
      rw [List.range_eq_range', List.range_eq_range', ← List.range'_append_1, List.range'_succ,
        Nat.zero_add]
    rw [deliveredOn_append_singleton, if_pos hr, hmap, hsplit, List.map_append, List.map_append,
      h.delivered, List.map_cons, List.map_cons, hfirst, hdel]
    congr 1
    exact List.map_congr_left fun x hx =>
      (firstCopy_append_of_arrived ((h.arrived x).2 (.inl (List.mem_range.1 hx))) [a]).symm
  · rw [hmap, arrived_append_singleton, h.arrived, hmem, hi]
    simp only [hr, true_and]
    constructor
    · rintro ((hx | hx) | rfl)
      · exact .inl (by omega)
      · exact .inr hx
      · exact .inl (by omega)
    · rintro (hx | hx)
      · rcases Nat.lt_succ_iff_lt_or_eq.1 hx with hx | hx
        · exact .inl (.inl hx)
        · exact .inr hx.symm
      · exact .inl (.inr hx)
  · obtain ⟨hp', hlt⟩ := hrest p hp
    refine ⟨hlt, ?_⟩
    rw [hmap]
    exact hheld p hp'

theorem step {c : Nat} (hc : c < 32) {σ : Ledger}
    (h : OrderedInv (orderedRaw c) (σ.track (orderedRaw c)) hist) (a : Arrival) :
    OrderedInv (orderedRaw c) ((σ.step a).2.track (orderedRaw c)) (hist ++ [(a, (σ.step a).1)]) := by
  rw [Ledger.step_track, Ledger.step_out]
  by_cases hr : a.raw = orderedRaw c
  · have hm := ((a.raw_eq_orderedRaw hc).1 hr).1
    rw [← hr] at h ⊢
    rw [Function.update_self, hm]
    generalize σ.track a.raw = t at h ⊢
    by_cases hd : a.index < t.pos ∨ a.index ∈ t.held.map (·.1)
    · simp only [Track.receive, hd, if_true]
      exact h.quiet _ _ (.inr ⟨(h.arrived _).2 hd, rfl⟩)
    · have hn : ¬ Arrived (hist.map (·.1)) a.raw a.index := by rwa [h.arrived]
      by_cases hw : t.pos < a.index
      · simp only [Track.receive, hd, hw, if_false, if_true]
        exact h.withhold rfl hn hw
      · rcases hrel : Track.release t.held (a.index + 1) (t.held.length + 1) with ⟨more, rest, n⟩
        simp only [Track.receive, hd, hw, if_false, hrel]
        exact h.accept rfl (by omega) hrel
  · rw [Function.update_of_ne (Ne.symm hr)]
    exact h.quiet _ _ (.inl hr)

theorem run {c : Nat} (hc : c < 32) (σ : Ledger) (as : List Arrival) {hist : List Received}
    (h : OrderedInv (orderedRaw c) (σ.track (orderedRaw c)) hist) :
    OrderedInv (orderedRaw c) ((σ.run as).2.track (orderedRaw c)) (hist ++ as.zip (σ.run as).1) := by
  -- the ledger and the history grow together, one arrival at a time
  induction as generalizing σ hist with
  | nil => simpa [Ledger.run] using h
  | cons a as ih =>
    rw [Ledger.run_cons]
    simpa using ih (σ.step a).2 (h.step hc a)

end OrderedInv

/-! ## The unordered kind -/

/-- The unordered kind after the history `hist`: an index arrived exactly when it is below the
position or early; the indices delivered are those that arrived, each once; and an arrival was
delivered exactly when no copy of its index came before it, and its index counts as delivered
from then on. -/
structure UnorderedInv (t : Track) (hist : List Received) : Prop where
  arrived : ∀ x, Arrived (hist.map (·.1)) unorderedRaw x ↔ x < t.pos ∨ x ∈ t.early
  delivered : ∀ x, x ∈ deliveredIndices unorderedRaw hist ↔ Arrived (hist.map (·.1)) unorderedRaw x
  nodup : (deliveredIndices unorderedRaw hist).Nodup
  verdicts : ∀ pre a o post, hist = pre ++ (a, o) :: post → a.raw = unorderedRaw →
    o = (if Arrived (pre.map (·.1)) unorderedRaw a.index then (.duplicate, [])
      else (.accepted, [a.inbound])) ∧
    a.index ∈ deliveredIndices unorderedRaw (pre ++ [(a, o)])

namespace UnorderedInv

variable {t : Track} {hist : List Received} {a : Arrival}

theorem init : UnorderedInv {} [] where
  arrived x := by simp [Arrived]
  delivered x := by simp [deliveredIndices, Arrived]
  nodup := List.nodup_nil
  verdicts pre a o post h := by simp at h

theorem quiet (h : UnorderedInv t hist) (o : Verdict × List Inbound)
    (ha : a.raw ≠ unorderedRaw ∨
      (Arrived (hist.map (·.1)) unorderedRaw a.index ∧ o = (.duplicate, []))) :
    UnorderedInv t (hist ++ [(a, o)]) := by
  have harr : ∀ x, Arrived ((hist ++ [(a, o)]).map (·.1)) unorderedRaw x ↔
      Arrived (hist.map (·.1)) unorderedRaw x := by
    intro x
    rw [List.map_append, List.map_singleton, arrived_append_singleton]
    constructor
    · rintro (hx | ⟨hr, rfl⟩)
      · exact hx
      · rcases ha with ha | ⟨ha, -⟩
        · exact absurd hr ha
        · exact ha
    · exact .inl
  have hidx : deliveredIndices unorderedRaw (hist ++ [(a, o)]) =
      deliveredIndices unorderedRaw hist := by
    rw [deliveredIndices_append_singleton]
    rcases ha with ha | ⟨-, rfl⟩
    · simp [ha]
    · simp
  refine ⟨fun x => (harr x).trans (h.arrived x), fun x => ?_, hidx ▸ h.nodup, ?_⟩
  · rw [hidx, harr]
    exact h.delivered x
  · intro pre b o' post hs hb
    rcases eq_append_cons_of_append_singleton hs.symm with ⟨rfl, hq, rfl⟩ | ⟨post', rfl, hold⟩
    · obtain ⟨rfl, rfl⟩ := Prod.mk.inj hq
      rcases ha with ha | ⟨ha, rfl⟩
      · exact absurd hb ha
      · exact ⟨by simp [ha], by rw [hidx]; exact (h.delivered _).2 ha⟩
    · exact h.verdicts pre b o' post' hold hb

theorem first (h : UnorderedInv t hist) (hr : a.raw = unorderedRaw)
    (hn : ¬ Arrived (hist.map (·.1)) unorderedRaw a.index) {t' : Track}
    (ht : ∀ x, x < t'.pos ∨ x ∈ t'.early ↔ (x < t.pos ∨ x ∈ t.early) ∨ a.index = x) :
    UnorderedInv t' (hist ++ [(a, .accepted, [a.inbound])]) := by
  have harr : ∀ x, Arrived ((hist ++ [(a, Verdict.accepted, [a.inbound])]).map (·.1))
      unorderedRaw x ↔ Arrived (hist.map (·.1)) unorderedRaw x ∨ a.index = x := by
    intro x
    rw [List.map_append, List.map_singleton, arrived_append_singleton]
    simp [hr]
  have hidx : deliveredIndices unorderedRaw (hist ++ [(a, Verdict.accepted, [a.inbound])]) =
      deliveredIndices unorderedRaw hist ++ [a.index] := by
    rw [deliveredIndices_append_singleton]
    simp [hr]
  refine ⟨fun x => by rw [harr, h.arrived, ht], fun x => ?_, ?_, ?_⟩
  · rw [hidx, harr, List.mem_append, List.mem_singleton, h.delivered, eq_comm]
  · rw [hidx]
    refine List.nodup_append.2 ⟨h.nodup, List.nodup_cons.2 ⟨List.not_mem_nil, List.nodup_nil⟩, fun x hx y hy hxy => ?_⟩
    rw [List.mem_singleton.1 hy] at hxy
    exact hn ((h.delivered _).1 (hxy ▸ hx))
  · intro pre b o' post hs hb
    rcases eq_append_cons_of_append_singleton hs.symm with ⟨rfl, hq, rfl⟩ | ⟨post', rfl, hold⟩
    · obtain ⟨rfl, rfl⟩ := Prod.mk.inj hq
      exact ⟨by simp [hn], by rw [hidx]; simp⟩
    · exact h.verdicts pre b o' post' hold hb

theorem step {σ : Ledger} (h : UnorderedInv (σ.track unorderedRaw) hist) (a : Arrival) :
    UnorderedInv ((σ.step a).2.track unorderedRaw) (hist ++ [(a, (σ.step a).1)]) := by
  rw [Ledger.step_track, Ledger.step_out]
  by_cases hr : a.raw = unorderedRaw
  · have hm := a.raw_eq_unorderedRaw.1 hr
    rw [← hr] at h ⊢
    rw [Function.update_self, hm]
    generalize σ.track a.raw = t at h ⊢
    by_cases hd : a.index < t.pos ∨ a.index ∈ t.early
    · simp only [Track.receive, hd, if_true]
      exact h.quiet _ (.inr ⟨(h.arrived _).2 hd, rfl⟩)
    · have hn : ¬ Arrived (hist.map (·.1)) unorderedRaw a.index := by rwa [h.arrived]
      by_cases hw : t.pos < a.index
      · simp only [Track.receive, hd, hw, if_false, if_true]
        refine h.first hr hn fun x => ?_
        simp only [List.mem_append, List.mem_singleton, or_assoc, eq_comm]
      · simp only [Track.receive, hd, hw, if_false]
        refine h.first hr hn fun x => ?_
        -- on time: the position moves past this index and the early ones that follow it
        have hlt : x < a.index + 1 ↔ x < t.pos ∨ a.index = x := by omega
        rw [Track.skip_mem_iff, hlt]
        constructor
        · rintro ((hx | hx) | hx)
          · exact .inl (.inl hx)
          · exact .inr hx
          · exact .inl (.inr hx)
        · rintro ((hx | hx) | hx)
          · exact .inl (.inl hx)
          · exact .inr hx
          · exact .inl (.inr hx)
  · rw [Function.update_of_ne (Ne.symm hr)]
    exact h.quiet _ (.inl hr)

theorem run (σ : Ledger) (as : List Arrival) {hist : List Received}
    (h : UnorderedInv (σ.track unorderedRaw) hist) :
    UnorderedInv ((σ.run as).2.track unorderedRaw) (hist ++ as.zip (σ.run as).1) := by
  induction as generalizing σ hist with
  | nil => simpa [Ledger.run] using h
  | cons a as ih =>
    rw [Ledger.run_cons]
    simpa using ih (σ.step a).2 (h.step a)

end UnorderedInv

/-! ## Acknowledgements -/

namespace ReceiveWindow

theorem receive_acks {w w' : ReceiveWindow} {a : Arrival} {v : Verdict} {out : List Inbound}
    (h : w.receive a.inbound a.time = .ok (v, out, w')) :
    w'.acks = w.acks ++ if a.method.isReliable then [(Seq.ofNat a.index, a.raw)] else [] := by
  by_cases hu : a.method = .unreliable
  · have hs : ¬ (Kind.user a.method a.channel).hasSeq = true := fun he => a.hasSeq_eq.1 he hu
    simp only [receive, Arrival.inbound, Arrival.kind, hs, if_false, Bool.false_eq_true] at h
    cases h
    simp [hu, Delivery.isReliable]
  · have hs : (Kind.user a.method a.channel).hasSeq = true := a.hasSeq_eq.2 hu
    have hb : (Kind.user a.method a.channel).byte = .ok a.raw := a.kind_byte
    have hge : ¬ a.raw ≥ Kind.count := by have := a.raw_lt; omega
    simp only [receive, Arrival.inbound, Arrival.kind, hs, if_true, hb, bind, Except.bind, hge,
      if_false] at h
    cases hr : a.method.isReliable <;> simp only [hr, if_true, if_false, Bool.false_eq_true] at h <;>
      (repeat' split at h) <;> (try cases h) <;> simp [queueAck, setExpected]

theorem receiveAll_acks {w w' : ReceiveWindow} {as : List Arrival}
    {outs : List (Verdict × List Inbound)} (h : w.receiveAll as = .ok (outs, w')) :
    w'.acks = w.acks ++ (as.filter (·.method.isReliable)).map fun a => (Seq.ofNat a.index, a.raw) := by
  induction as generalizing w outs with
  | nil =>
    cases h
    simp
  | cons a as ih =>
    simp only [receiveAll, bind, Except.bind] at h
    rcases hr : w.receive a.inbound a.time with _ | ⟨v, out, w₁⟩
    · simp only [hr, reduceCtorEq] at h
    · rcases hrest : w₁.receiveAll as with _ | ⟨os, w₂⟩
      · simp only [hr, hrest, reduceCtorEq] at h
      · simp only [hr, hrest, pure, Except.pure, Except.ok.injEq, Prod.mk.injEq] at h
        obtain ⟨-, rfl⟩ := h
        rw [ih hrest, receive_acks hr, List.filter_cons]
        split <;> simp_all

end ReceiveWindow

/-! ## The window within half the space -/

/-- On every ordered channel the window has released the first copies of `0, 1, …, n - 1`, in
order and each once, where `n` is the first index that has not arrived, as long as every
arrival lies within half the sequence space of its kind's position. -/
theorem ordered_delivery_gap_free (as : List Arrival) (ha : ({} : Ledger).Admissible as) :
    ∃ outs w, ({} : ReceiveWindow).receiveAll as = .ok (outs, w) ∧ ∀ c < 32, ∃ n,
      (deliveredOn (orderedRaw c) (as.zip outs)).map some =
        (List.range n).map (firstCopy as (orderedRaw c)) ∧
      firstCopy as (orderedRaw c) n = none := by
  obtain ⟨w, hw, -⟩ := abstracts_fresh.receiveAll ha
  refine ⟨_, w, hw, fun c hc => ?_⟩
  have h := OrderedInv.run hc {} as (OrderedInv.init (orderedRaw c))
  have hfst : (as.zip (({} : Ledger).run as).1).map (·.1) = as :=
    List.map_fst_zip (by rw [Ledger.length_run])
  rw [List.nil_append] at h
  have hd := h.delivered
  have harr := h.arrived
  rw [hfst] at hd harr
  refine ⟨_, hd, firstCopy_eq_none fun hn => ?_⟩
  rcases (harr _).1 hn with hlt | hmem
  · exact Nat.lt_irrefl _ hlt
  · obtain ⟨p, hp, hpe⟩ := List.mem_map.1 hmem
    have := (h.held p hp).1
    omega

example :
    let as : List Arrival := [1, 1, 0, 3].map fun i =>
      { method := .reliableOrdered, channel := 5, valid := by decide, index := i, data := [i.toUInt8] }
    ({} : Ledger).Admissible as ∧ ∃ outs w, ({} : ReceiveWindow).receiveAll as = .ok (outs, w) ∧
      ∀ c < 32, ∃ n, (deliveredOn (orderedRaw c) (as.zip outs)).map some =
        (List.range n).map (firstCopy as (orderedRaw c)) ∧ firstCopy as (orderedRaw c) n = none :=
  ⟨by decide, ordered_delivery_gap_free _ (by decide)⟩

example :
    let a₁ : Arrival :=
      { method := .reliableOrdered, channel := 0, valid := by decide, index := 1, data := [1] }
    let a₂ : Arrival :=
      { method := .reliableOrdered, channel := 0, valid := by decide, index := 1024, data := [4, 0] }
    ¬ ({} : Ledger).Admissible [a₁, a₂] ∧ firstCopy [a₁, a₂] (orderedRaw 0) 0 = none ∧
      ∃ w, ({} : ReceiveWindow).receiveAll [a₁, a₂] =
        .ok ([(.withheld, []), (.accepted, [a₂.inbound, a₁.inbound])], w) :=
  ⟨by decide, rfl, _, rfl⟩

theorem unordered_delivered_before_ack (as : List Arrival) (ha : ({} : Ledger).Admissible as) :
    ∃ outs w, ({} : ReceiveWindow).receiveAll as = .ok (outs, w) ∧
      w.acks = (as.filter (·.method.isReliable)).map (fun a => (Seq.ofNat a.index, a.raw)) ∧
      (deliveredIndices unorderedRaw (as.zip outs)).Nodup ∧
      ∀ pre a o post, as.zip outs = pre ++ (a, o) :: post → a.raw = unorderedRaw →
        a.index ∈ deliveredIndices unorderedRaw (pre ++ [(a, o)]) := by
  obtain ⟨w, hw, -⟩ := abstracts_fresh.receiveAll ha
  have h := UnorderedInv.run {} as UnorderedInv.init
  rw [List.nil_append] at h
  exact ⟨_, w, hw, (ReceiveWindow.receiveAll_acks hw).trans (List.nil_append _), h.nodup,
    fun pre a o post hs hr => (h.verdicts pre a o post hs hr).2⟩

example :
    let as : List Arrival := [2, 0, 2, 1].map fun i =>
      { method := .reliableUnordered, channel := 0, valid := by decide, index := i, data := [i.toUInt8] }
    ({} : Ledger).Admissible as ∧ ∃ outs w, ({} : ReceiveWindow).receiveAll as = .ok (outs, w) ∧
      w.acks = (as.filter (·.method.isReliable)).map (fun a => (Seq.ofNat a.index, a.raw)) ∧
      (deliveredIndices unorderedRaw (as.zip outs)).Nodup ∧
      ∀ pre a o post, as.zip outs = pre ++ (a, o) :: post → a.raw = unorderedRaw →
        a.index ∈ deliveredIndices unorderedRaw (pre ++ [(a, o)]) :=
  ⟨by decide, unordered_delivered_before_ack _ (by decide)⟩

example :
    let a : Arrival :=
      { method := .reliableUnordered, channel := 0, valid := by decide, index := 512, data := [] }
    ¬ ({} : Ledger).Admissible [a] ∧ ∃ w, ({} : ReceiveWindow).receiveAll [a] =
      .ok ([(.duplicate, [])], w) ∧ w.acks = [(Seq.ofNat 512, unorderedRaw)] :=
  ⟨by decide, _, rfl, rfl⟩

end ReliableUdp
