import ReliableUdp.Proofs.Link.Invariant

/-!
# What a link releases

Over every run that gives nothing up and stays within half the space, each ordered channel
releases a prefix of what was first sent on it, and the unordered kind releases distinct first
copies, among them every message an acknowledgement took out of the sender's store.
-/

namespace ReliableUdp

theorem List.map_getElem?_range {α : Type} {xs : List α} {n : Nat} (h : n ≤ xs.length) :
    (List.range n).map (xs[·]?) = (xs.take n).map some := by
  apply List.ext_getElem?
  intro i
  simp only [List.getElem?_map, List.getElem?_take]
  by_cases hi : i < n
  · simp [hi, List.getElem?_eq_getElem (Nat.lt_of_lt_of_le hi h)]
  · simp [hi]

theorem firstCopy_raw {as : List Arrival} {r i : Nat} {x : Inbound} (h : firstCopy as r i = some x) :
    x.kind.toRaw = r := by
  simp only [firstCopy, Option.map_eq_some_iff] at h
  obtain ⟨a, ha, rfl⟩ := h
  have := List.find?_some ha
  simp only [decide_eq_true_eq] at this
  exact this.1

theorem OrderedInv.out_raw {r : Nat} {t : Track} {hist : List Received} (h : OrderedInv r t hist)
    {p : Received} (hp : p ∈ hist) (hr : p.1.raw = r) {x : Inbound} (hx : x ∈ p.2.2) :
    x.kind.toRaw = r := by
  have hd : some x ∈ (deliveredOn r hist).map some :=
    List.mem_map_of_mem (List.mem_flatMap.2 ⟨p, hp, by rw [if_pos hr]; exact hx⟩)
  rw [h.delivered] at hd
  obtain ⟨i, -, hi⟩ := List.mem_map.1 hd
  exact firstCopy_raw hi

theorem UnorderedInv.outs {t : Track} {hist : List Received} (h : UnorderedInv t hist)
    {p : Received} (hp : p ∈ hist) (hr : p.1.raw = unorderedRaw) : p.2.2 = [] ∨ p.2.2 = [p.1.inbound] := by
  obtain ⟨pre, post, rfl⟩ := List.append_of_mem hp
  rw [(h.verdicts pre p.1 p.2 post rfl hr).1]
  split
  · exact .inl rfl
  · exact .inr rfl

theorem deliveredOn_map_some {hist : List Received} {xs : List Inbound} {r : Nat}
    (hout : ∀ p ∈ hist, p.1.raw = r → p.2.2 = [] ∨ p.2.2 = [p.1.inbound])
    (hx : ∀ p ∈ hist, p.1.raw = r → xs[p.1.index]? = some p.1.inbound) :
    (deliveredOn r hist).map some = (deliveredIndices r hist).map (xs[·]?) := by
  induction hist with
  | nil => rfl
  | cons p hist ih =>
    have ih := ih (fun q hq => hout q (List.mem_cons_of_mem _ hq)) (fun q hq => hx q (List.mem_cons_of_mem _ hq))
    simp only [deliveredOn, deliveredIndices, List.flatMap_cons, List.filter_cons] at ih ⊢
    by_cases hr : p.1.raw = r
    · rcases hout p List.mem_cons_self hr with h | h
      · simpa [hr, h] using ih
      · simpa [hr, h, hx p List.mem_cons_self hr] using ih
    · simpa [hr] using ih

namespace Link

variable {l : Link} {g : Numbering} {σ : Ledger} {hist : List Received}

theorem Inv.out_raw (hI : Inv l g σ hist) {p : Received} (hp : p ∈ hist) {x : Inbound}
    (hx : x ∈ p.2.2) : x.kind.toRaw = p.1.raw := by
  have hk := (hI.logged.sent _ _ _ (hI.honest p hp)).2
  rcases Kind.remembered_raw hk with hr | ⟨c, hc, hr⟩
  · rcases hI.unordered.outs hp hr with h | h
    · rw [h] at hx
      cases hx
    · rw [h, List.mem_singleton] at hx
      rw [hx]
      rfl
  · exact ((hI.ordered c hc).out_raw hp hr hx).trans hr.symm

theorem Inv.releasedOn_eq_deliveredOn (hI : Inv l g σ hist) (r : Nat) : l.releasedOn r = deliveredOn r hist := by
  have hout : ∀ p ∈ hist, ∀ x ∈ p.2.2, x.kind.toRaw = p.1.raw := fun p hp x hx => hI.out_raw hp hx
  rw [releasedOn, hI.released]
  clear hI
  induction hist with
  | nil => rfl
  | cons p hist ih =>
    rw [List.flatMap_cons, Inbound.onRaw_append, ih fun q hq => hout q (List.mem_cons_of_mem _ hq)]
    simp only [deliveredOn, List.flatMap_cons]
    congr 1
    split
    · exact List.filter_eq_self.2 fun x hx => by simpa [hout p List.mem_cons_self x hx]
    · exact List.filter_eq_nil_iff.2 fun x hx => by simpa [hout p List.mem_cons_self x hx]

theorem Inv.firstCopy_eq (hI : Inv l g σ hist) {r i : Nat} (h : Arrived (hist.map (·.1)) r i) :
    firstCopy (hist.map (·.1)) r i = (l.sentOn r)[i]? := by
  obtain ⟨a, ha, hm⟩ := h
  obtain ⟨b, hb⟩ := Option.isSome_iff_exists.1
    (List.find?_isSome.2 ⟨a, ha, by simpa using hm⟩ :
      ((hist.map (·.1)).find? fun a => a.raw = r ∧ a.index = i).isSome)
  have hbr := List.find?_some hb
  simp only [decide_eq_true_eq] at hbr
  obtain ⟨p, hp, rfl⟩ := List.mem_map.1 (List.mem_of_find?_eq_some hb)
  rw [firstCopy, hb, Option.map_some, ← hbr.1, ← hbr.2, hI.honest p hp]

theorem Inv.releasedOn_ordered (hI : Inv l g σ hist) {c : Nat} (hc : c < 32) :
    l.releasedOn (orderedRaw c) = (l.sentOn (orderedRaw c)).take (σ.track (orderedRaw c)).pos := by
  have ho := hI.ordered c hc
  have hlen : (σ.track (orderedRaw c)).pos ≤ (l.sentOn (orderedRaw c)).length :=
    hI.logged.assigned _ ▸ hI.pos_le (.inr ⟨c, hc, rfl⟩)
  have hfirst : ∀ i ∈ List.range (σ.track (orderedRaw c)).pos,
      firstCopy (hist.map (·.1)) (orderedRaw c) i = (l.sentOn (orderedRaw c))[i]? :=
    fun i hi => hI.firstCopy_eq ((ho.arrived i).2 (.inl (List.mem_range.1 hi)))
  refine (List.map_inj_right fun _ _ h => Option.some.inj h).1 ?_
  rw [hI.releasedOn_eq_deliveredOn, ho.delivered, List.map_congr_left hfirst, List.map_getElem?_range hlen]

theorem Inv.releasedOn_unordered (hI : Inv l g σ hist) :
    (l.releasedOn unorderedRaw).map some =
      (deliveredIndices unorderedRaw hist).map ((l.sentOn unorderedRaw)[·]?) := by
  rw [hI.releasedOn_eq_deliveredOn]
  exact deliveredOn_map_some (fun p hp hr => hI.unordered.outs hp hr)
    (fun p hp hr => hr ▸ hI.honest p hp)

theorem Inv.confirmed_delivered (hI : Inv l g σ hist) {x : Inbound}
    (hx : x ∈ l.confirmedOn unorderedRaw) :
    ∃ j ∈ deliveredIndices unorderedRaw hist, (l.sentOn unorderedRaw)[j]? = some x := by
  obtain ⟨hx, hr⟩ := Inbound.mem_onRaw.1 hx
  obtain ⟨j, hj, harr⟩ := hI.confirmed x hx
  rw [hr] at hj harr
  exact ⟨j, (hI.unordered.delivered j).2 harr, hj⟩

/-! ## Runs from a fresh link -/

/-- Over every run that gives nothing up and keeps the sender's stored numbers within half the
space behind the next, each ordered channel has released a prefix of the messages as first
sent on it: in order, each once, and none while an earlier one is missing. -/
theorem ordered_release_prefix_of_sent {n : Nat} {as : List Act} {l : Link}
    (hrun : run as (fresh n) = some l) (hkept : l.lost = [])
    (hhalf : ∀ q ∈ trace as (fresh n), q.tx.WithinHalf) :
    ∀ c < 32, ∃ k, l.releasedOn (orderedRaw c) = (l.sentOn (orderedRaw c)).take k := by
  obtain ⟨g, σ, hist, hI⟩ := (Inv.fresh n).run hrun hkept hhalf
  exact fun c hc => ⟨_, hI.releasedOn_ordered hc⟩

def message (k : Kind) (i : Nat) : Queued :=
  { payload := { id := i, data := [(i / 256).toUInt8, (i % 256).toUInt8] }, kind := k }

theorem run_eq_of_map (as : List Act) (l₀ : Link) {β : Type} (f : Link → β) {v : β}
    (h : (run as l₀).map f = some v) : ∃ l, run as l₀ = some l ∧ f l = v := by
  cases hr : run as l₀ with
  | none =>
    rw [hr] at h
    cases h
  | some l =>
    rw [hr] at h
    exact ⟨l, rfl, Option.some.inj h⟩

def reordered : List Act :=
  [.send (message (.user .reliableOrdered 0) 0) 0, .send (message (.user .reliableOrdered 0) 1) 0, .ship,
    .arrive 1 0, .arrive 0 0, .turn, .flush, .ackIn 0, .ackIn 1, .next]

theorem ordered_release_prefix_reordered :
    ∃ l, run reordered (fresh 2) = some l ∧ l.lost = [] ∧
      (∀ q ∈ trace reordered (fresh 2), q.tx.WithinHalf) ∧
      ∀ c < 32, ∃ k, l.releasedOn (orderedRaw c) = (l.sentOn (orderedRaw c)).take k := by
  obtain ⟨l, hrun, hlost⟩ := run_eq_of_map reordered (fresh 2) (fun l => l.lost.isEmpty) (v := true)
    (by decide +kernel)
  have hkept := List.isEmpty_iff.1 hlost
  have hhalf : ∀ q ∈ trace reordered (fresh 2), q.tx.WithinHalf := by decide +kernel
  exact ⟨l, hrun, hkept, hhalf, ordered_release_prefix_of_sent hrun hkept hhalf⟩

/-- Over every such run, the unordered kind has released the first copies of distinct indices,
and every message an acknowledgement took out of the sender's store is one of them. -/
theorem unordered_release_once_before_ack {n : Nat} {as : List Act} {l : Link}
    (hrun : run as (fresh n) = some l) (hkept : l.lost = [])
    (hhalf : ∀ q ∈ trace as (fresh n), q.tx.WithinHalf) :
    ∃ is : List Nat, is.Nodup ∧
      (l.releasedOn unorderedRaw).map some = is.map ((l.sentOn unorderedRaw)[·]?) ∧
      ∀ x ∈ l.confirmedOn unorderedRaw, ∃ j ∈ is, (l.sentOn unorderedRaw)[j]? = some x := by
  obtain ⟨g, σ, hist, hI⟩ := (Inv.fresh n).run hrun hkept hhalf
  exact ⟨_, hI.unordered.nodup, hI.releasedOn_unordered, fun x hx => hI.confirmed_delivered hx⟩

def repeated : List Act :=
  [.send (message (.user .reliableUnordered 0) 0) 0, .send (message (.user .reliableUnordered 0) 1) 0,
    .ship, .arrive 1 0, .arrive 1 0, .arrive 0 0, .turn, .flush, .ackIn 0, .ackIn 1, .ackIn 2, .next]

theorem unordered_release_once_repeated :
    ∃ l, run repeated (fresh 2) = some l ∧ l.lost = [] ∧
      (∀ q ∈ trace repeated (fresh 2), q.tx.WithinHalf) ∧
      ∃ is : List Nat, is.Nodup ∧
        (l.releasedOn unorderedRaw).map some = is.map ((l.sentOn unorderedRaw)[·]?) ∧
        ∀ x ∈ l.confirmedOn unorderedRaw, ∃ j ∈ is, (l.sentOn unorderedRaw)[j]? = some x := by
  obtain ⟨l, hrun, hlost⟩ := run_eq_of_map repeated (fresh 2) (fun l => l.lost.isEmpty) (v := true)
    (by decide +kernel)
  have hkept := List.isEmpty_iff.1 hlost
  have hhalf : ∀ q ∈ trace repeated (fresh 2), q.tx.WithinHalf := by decide +kernel
  exact ⟨l, hrun, hkept, hhalf, unordered_release_once_before_ack hrun hkept hhalf⟩

end Link
end ReliableUdp
