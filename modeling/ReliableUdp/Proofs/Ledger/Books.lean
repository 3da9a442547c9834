import Mathlib.Algebra.BigOperators.Group.Multiset.Basic
import Mathlib.Data.Finset.Card
import ReliableUdp.Engine.Fragments

/-!
# The payload ledger keeps its books

`Pool.Books pool H extra` says the pool counts exactly the references `H` to each payload, and
every payload no longer referenced came back once. Each ledger operation moves the books with
the references; `Pool.Keeps` says a payload once gone never comes back.
-/

namespace ReliableUdp
namespace Pool

def held (pool : Pool) (id : Nat) : Nat := ((pool.share? id).map (·.refs)).getD 0

theorem refs_eq_held (pool : Pool) (p : Payload) : pool.refs p = pool.held p.id := rfl

/-- The ledger counts the references `H`, one entry per payload held, numbered below the next
number; the payloads returned are those given out and no longer held, and `extra` more. -/
structure Books (pool : Pool) (H : Multiset Nat) (extra : Nat) : Prop where
  exact : ∀ id, pool.held id = H.count id
  keys : (pool.shares.map (·.1)).Nodup
  pos : ∀ e ∈ pool.shares, 0 < e.2.refs
  below : ∀ e ∈ pool.shares, e.1 < pool.nextId
  recycled : pool.recycledOut = ((Finset.range pool.nextId).filter (H.count · = 0)).card + extra

/-- Payloads gone from the ledger stay gone, and numbers are never given out twice. -/
def Keeps (pool pool' : Pool) : Prop :=
  pool.nextId ≤ pool'.nextId ∧ ∀ id < pool.nextId, pool.held id = 0 → pool'.held id = 0

theorem Keeps.refl (pool : Pool) : Keeps pool pool := ⟨Nat.le_refl _, fun _ _ h => h⟩

theorem Keeps.trans {pool₁ pool₂ pool₃ : Pool} (h₁ : Keeps pool₁ pool₂) (h₂ : Keeps pool₂ pool₃) :
    Keeps pool₁ pool₃ :=
  ⟨Nat.le_trans h₁.1 h₂.1, fun id hid h => h₂.2 id (Nat.lt_of_lt_of_le hid h₁.1) (h₁.2 id hid h)⟩

/-! ## Finding entries -/

variable {pool : Pool} {H : Multiset Nat} {extra : Nat}

theorem find?_key_of_mem {L : List (Nat × Share)} (hk : (L.map (·.1)).Nodup) {id : Nat} {s : Share}
    (h : (id, s) ∈ L) : L.find? (·.1 == id) = some (id, s) := by
  induction L with
  | nil => cases h
  | cons x l ih =>
    obtain ⟨hx, hl⟩ := List.nodup_cons.1 hk
    simp only at hx
    rcases List.mem_cons.1 h with rfl | h
    · simp
    · have hne : x.1 ≠ id := fun e => hx (by rw [e]; exact List.mem_map_of_mem (f := (·.1)) h)
      simp [hne, ih hl h]

theorem share?_of_mem (hk : (pool.shares.map (·.1)).Nodup) {id : Nat} {s : Share}
    (h : (id, s) ∈ pool.shares) : pool.share? id = some s := by
  simp [share?, find?_key_of_mem hk h]

theorem find?_append_fresh {L : List (Nat × Share)} {n : Nat} {t : Share} (hn : n ∉ L.map (·.1)) (k : Nat) :
    (L ++ [(n, t)]).find? (·.1 == k) = if k = n then some (n, t) else L.find? (·.1 == k) := by
  rw [List.find?_append]
  by_cases hk : k = n
  · subst hk
    have : L.find? (·.1 == k) = none := List.find?_eq_none.2 fun x hx e => hn (by
      simp only [beq_iff_eq] at e
      exact e ▸ List.mem_map_of_mem (f := (·.1)) hx)
    simp [this]
  · have hne : n ≠ k := Ne.symm hk
    simp [hk, hne]

theorem share?_eq_none {id : Nat} (h : id ∉ pool.shares.map (·.1)) : pool.share? id = none := by
  unfold share?
  rw [Option.map_eq_none_iff, List.find?_eq_none]
  intro x hx hid
  exact h (List.mem_map.2 ⟨x, hx, by simpa using hid⟩)

theorem mem_of_share? {id : Nat} {s : Share} (h : pool.share? id = some s) : (id, s) ∈ pool.shares := by
  unfold share? at h
  obtain ⟨x, hx, rfl⟩ := Option.map_eq_some_iff.1 h
  have := List.find?_some hx
  obtain ⟨i, t⟩ := x
  simp only [beq_iff_eq] at this
  subst this
  exact List.mem_of_find?_eq_some hx

theorem Books.share?_of_mem (hb : pool.Books H extra) {id : Nat} (hid : id ∈ H) :
    ∃ s, pool.share? id = some s ∧ s.refs = H.count id := by
  have hc := hb.exact id
  cases hs : pool.share? id with
  | none =>
    simp only [held, hs, Option.map_none, Option.getD_none] at hc
    exact absurd (Multiset.count_pos.2 hid) (by omega)
  | some s =>
    simp only [held, hs, Option.map_some, Option.getD_some] at hc
    exact ⟨s, rfl, hc⟩

theorem Books.held_eq_zero (hb : pool.Books H extra) {id : Nat} (hid : pool.nextId ≤ id) :
    pool.held id = 0 := by
  rw [held, share?_eq_none fun hm => ?_]
  · rfl
  · obtain ⟨e, he, rfl⟩ := List.mem_map.1 hm
    exact absurd (hb.below e he) (Nat.not_lt.2 hid)

theorem Books.lt_of_mem (hb : pool.Books H extra) {id : Nat} (hid : id ∈ H) : id < pool.nextId := by
  refine Nat.lt_of_not_le fun hle => ?_
  have := hb.exact id
  rw [hb.held_eq_zero hle] at this
  exact absurd (Multiset.count_pos.2 hid) (by omega)

/-! ## Setting an entry -/

theorem share?_setShare (id j : Nat) (s : Share) :
    (pool.setShare id s).share? j = if j = id then (pool.share? id).map fun _ => s else pool.share? j := by
  unfold setShare share?
  rw [List.find?_map]
  have hp : ((fun x : Nat × Share => x.1 == j) ∘ fun x : Nat × Share => if x.1 == id then (x.1, s) else (x.1, x.2)) =
      (fun x => x.1 == j) := by
    funext x
    by_cases h : x.1 = id <;> simp [h]
  rw [hp]
  by_cases hj : j = id
  · subst hj
    cases hf : pool.shares.find? (·.1 == j) with
    | none => simp
    | some x =>
      have := List.find?_some hf
      simp only [beq_iff_eq] at this
      simp [this]
  · cases hf : pool.shares.find? (·.1 == j) with
    | none => simp [hj]
    | some x =>
      have := List.find?_some hf
      simp only [beq_iff_eq] at this
      simp [this, hj]

theorem keys_setShare (id : Nat) (s : Share) :
    (pool.setShare id s).shares.map (·.1) = pool.shares.map (·.1) := by
  unfold setShare
  rw [List.map_map]
  congr 1
  funext x
  by_cases h : x.1 = id <;> simp [h]

theorem mem_setShare {id : Nat} {s : Share} {e : Nat × Share} (he : e ∈ (pool.setShare id s).shares) :
    e = (id, s) ∨ e ∈ pool.shares := by
  unfold setShare at he
  obtain ⟨x, hx, rfl⟩ := List.mem_map.1 he
  by_cases h : x.1 = id
  · left
    simp [h]
  · right
    simpa [h] using hx

theorem held_setShare_self {id : Nat} {s s' : Share} (h : pool.share? id = some s) :
    (pool.setShare id s').held id = s'.refs := by
  simp [held, share?_setShare, h]

theorem held_setShare_ne {id j : Nat} (s' : Share) (hj : j ≠ id) :
    (pool.setShare id s').held j = pool.held j := by
  simp [held, share?_setShare, hj]

theorem Books.setShare (hb : pool.Books H extra) {id : Nat} {s s' : Share} (h : pool.share? id = some s)
    {H' : Multiset Nat} (hpos : 0 < s'.refs) (hcount : H'.count id = s'.refs)
    (hrest : ∀ j, j ≠ id → H'.count j = H.count j) (hdead : ∀ j, H'.count j = 0 ↔ H.count j = 0) :
    (pool.setShare id s').Books H' extra where
  exact j := by
    by_cases hj : j = id
    · subst hj
      rw [held_setShare_self h, hcount]
    · rw [held_setShare_ne s' hj, hb.exact j, hrest j hj]
  keys := by rw [keys_setShare]; exact hb.keys
  pos e he := by
    rcases mem_setShare he with rfl | he
    · exact hpos
    · exact hb.pos e he
  below e he := by
    rcases mem_setShare he with rfl | he
    · show id < pool.nextId
      exact hb.below _ (mem_of_share? h)
    · exact hb.below e he
  recycled := by
    show pool.recycledOut = ((Finset.range pool.nextId).filter (H'.count · = 0)).card + extra
    rw [hb.recycled]
    congr 2
    exact Finset.filter_congr fun j _ => (hdead j).symm

theorem Keeps.setShare (hb : pool.Books H extra) {id : Nat} {s s' : Share} (h : pool.share? id = some s) :
    Keeps pool (pool.setShare id s') := by
  refine ⟨Nat.le_refl _, fun j _ hj => ?_⟩
  by_cases e : j = id
  · -- a payload with an entry has references
    subst e
    have : 0 < s.refs := hb.pos _ (mem_of_share? h)
    simp [held, h] at hj
    omega
  · rw [held_setShare_ne s' e, hj]

/-! ## The operations on the ledger -/

theorem Books.fresh (max : Nat) : ({ max } : Pool).Books 0 0 where
  exact _ := rfl
  keys := List.nodup_nil
  pos _ h := by cases h
  below _ h := by cases h
  recycled := rfl

theorem Books.enqueue (hb : pool.Books H extra) (data : Bytes) (cap : Nat) :
    (pool.enqueue data cap).2.Books (H + {pool.nextId}) extra ∧ (pool.enqueue data cap).1.id = pool.nextId := by
  refine ⟨⟨fun j => ?_, ?_, ?_, ?_, ?_⟩, rfl⟩
  · have hfresh : pool.nextId ∉ pool.shares.map (·.1) := fun hm => by
      obtain ⟨e, he, he'⟩ := List.mem_map.1 hm
      exact absurd (he' ▸ hb.below e he) (Nat.lt_irrefl _)
    have hzero : H.count pool.nextId = 0 := by
      rw [← hb.exact]
      exact hb.held_eq_zero (Nat.le_refl _)
    by_cases hj : j = pool.nextId
    · subst hj
      simp [Pool.enqueue, held, share?, find?_append_fresh hfresh, hzero]
    · have hc := hb.exact j
      simp only [held, share?] at hc
      simp only [Pool.enqueue, held, share?, find?_append_fresh hfresh, hj, if_false,
        Multiset.count_add, Multiset.count_singleton, Nat.add_zero]
      rw [← hc, Option.map_map]
  · simp only [Pool.enqueue, List.map_append, List.map_cons, List.map_nil]
    refine List.nodup_append.2 ⟨hb.keys, List.nodup_singleton _, fun a ha b hb' e => ?_⟩
    rw [List.mem_singleton.1 hb'] at e
    obtain ⟨x, hx, rfl⟩ := List.mem_map.1 ha
    exact absurd (e ▸ hb.below x hx) (Nat.lt_irrefl _)
  · intro e he
    rcases List.mem_append.1 he with he | he
    · exact hb.pos e he
    · rw [List.mem_singleton.1 he]
      exact Nat.one_pos
  · intro e he
    rcases List.mem_append.1 he with he | he
    · exact Nat.lt_succ_of_lt (hb.below e he)
    · rw [List.mem_singleton.1 he]
      exact Nat.lt_succ_self _
  · -- the new number is held, so the payloads returned are those of before
    simp only [Pool.enqueue]
    rw [hb.recycled, Finset.range_add_one, Finset.filter_insert]
    simp only [Multiset.count_add, Multiset.count_singleton, if_true, Nat.add_one_ne_zero, if_false]
    congr 2
    refine Finset.filter_congr fun j hj => ?_
    have : j ≠ pool.nextId := Nat.ne_of_lt (Finset.mem_range.1 hj)
    simp [this]

theorem Keeps.enqueue (data : Bytes) (cap : Nat) (hb : pool.Books H extra) :
    Keeps pool (pool.enqueue data cap).2 := by
  refine ⟨Nat.le_succ _, fun j hj h0 => ?_⟩
  have := (hb.enqueue data cap).1.exact j
  have hne : j ≠ pool.nextId := Nat.ne_of_lt hj
  rw [this, Multiset.count_add, Multiset.count_singleton, if_neg hne, ← hb.exact j, h0]

theorem Books.retain (hb : pool.Books H extra) {p : Payload} (hid : p.id ∈ H) :
    (pool.retain p).Books (H + {p.id}) extra ∧ Keeps pool (pool.retain p) := by
  obtain ⟨s, hs, hrefs⟩ := hb.share?_of_mem hid
  have hpos := Multiset.count_pos.2 hid
  unfold Pool.retain
  rw [hs]
  refine ⟨hb.setShare hs (Nat.succ_pos _) ?_ (fun j hj => ?_) (fun j => ?_), Keeps.setShare hb hs⟩
  · simp [Multiset.count_add, hrefs]
  · simp [Multiset.count_add, hj]
  · by_cases hj : j = p.id
    · subst hj
      simp only [Multiset.count_add, Multiset.count_singleton, if_true]
      omega
    · simp [Multiset.count_add, hj]

theorem recycleOutgoing_shares (pool : Pool) (m : Storage) :
    (pool.recycleOutgoing m).shares = pool.shares ∧ (pool.recycleOutgoing m).nextId = pool.nextId ∧
      (pool.recycleOutgoing m).recycledOut = pool.recycledOut + 1 := by
  unfold recycleOutgoing recycleStorage
  dsimp only
  split
  · exact ⟨rfl, rfl, rfl⟩
  · split
    · exact ⟨rfl, rfl, rfl⟩
    · split <;> exact ⟨rfl, rfl, rfl⟩

theorem held_of_shares {pool' : Pool} (h : pool'.shares = pool.shares) (id : Nat) :
    pool'.held id = pool.held id := by
  simp only [held, share?, h]

theorem Books.recycleOutgoing (hb : pool.Books H extra) (m : Storage) :
    (pool.recycleOutgoing m).Books H (extra + 1) ∧ Keeps pool (pool.recycleOutgoing m) := by
  obtain ⟨hs, hn, hr⟩ := recycleOutgoing_shares pool m
  refine ⟨⟨fun j => ?_, hs ▸ hb.keys, hs ▸ hb.pos, ?_, ?_⟩, ?_⟩
  · rw [held_of_shares hs, hb.exact]
  · rw [hs, hn]
    exact hb.below
  · rw [hr, hn, hb.recycled]
    omega
  · exact ⟨hn ▸ Nat.le_refl _, fun j _ hj => by rw [held_of_shares hs, hj]⟩

/-- Dropping a reference: the last one takes the entry out and returns the payload. -/
theorem Books.release (hb : pool.Books H extra) {p : Payload} (hid : p.id ∈ H) :
    (pool.release p).Books (H.erase p.id) extra ∧ Keeps pool (pool.release p) := by
  obtain ⟨s, hs, hrefs⟩ := hb.share?_of_mem hid
  have hpos := Multiset.count_pos.2 hid
  unfold Pool.release
  rw [hs]
  dsimp only
  split
  · -- the last reference: the entry goes, the payload comes back
    rename_i hlast
    have hone : H.count p.id = 1 := by omega
    let pool₁ : Pool := { pool with shares := pool.shares.filter (·.1 != p.id) }
    have hheld : ∀ j, pool₁.held j = if j = p.id then 0 else pool.held j := by
      intro j
      simp only [pool₁, held, share?, List.find?_filter]
      by_cases hj : j = p.id
      · subst hj
        rw [List.find?_eq_none.2 fun x _ hx => by simp_all]
        simp
      · have : (fun a : Nat × Share => decide ((a.1 != p.id) = true ∧ (a.1 == j) = true)) =
            fun a => a.1 == j := by
          funext a
          by_cases ha : a.1 = j <;> simp [ha, hj]
        rw [this, if_neg hj]
    have hcount : ∀ j, (H.erase p.id).count j = if j = p.id then 0 else H.count j := by
      intro j
      by_cases hj : j = p.id
      · subst hj
        rw [Multiset.count_erase_self, hone, if_pos rfl]
      · rw [Multiset.count_erase_of_ne hj, if_neg hj]
    obtain ⟨hs₂, hn₂, hr₂⟩ := recycleOutgoing_shares pool₁ p.buffer
    have hheld₂ : ∀ j, (pool₁.recycleOutgoing p.buffer).held j = if j = p.id then 0 else pool.held j :=
      fun j => (held_of_shares hs₂ j).trans (hheld j)
    have hlt : p.id < pool.nextId := hb.lt_of_mem hid
    refine ⟨⟨fun j => ?_, ?_, fun e he => ?_, fun e he => ?_, ?_⟩, ⟨Nat.le_of_eq hn₂.symm, fun j _ hj => ?_⟩⟩
    · rw [hheld₂, hcount]
      split
      · rfl
      · exact hb.exact j
    · rw [hs₂]
      exact hb.keys.sublist (List.filter_sublist.map _)
    · rw [hs₂] at he
      exact hb.pos e (List.mem_of_mem_filter he)
    · rw [hs₂] at he
      rw [hn₂]
      exact hb.below e (List.mem_of_mem_filter he)
    · -- the payload joins those returned
      have hdead : (Finset.range pool.nextId).filter ((H.erase p.id).count · = 0) =
          insert p.id ((Finset.range pool.nextId).filter (H.count · = 0)) := by
        ext j
        simp only [Finset.mem_filter, Finset.mem_range, Finset.mem_insert, hcount]
        by_cases hj : j = p.id
        · subst hj
          simp [hlt]
        · simp [hj]
      have hnot : p.id ∉ (Finset.range pool.nextId).filter (H.count · = 0) := by
        rw [Finset.mem_filter, hone]
        exact fun h => Nat.one_ne_zero h.2
      rw [hr₂, hn₂]
      show pool.recycledOut + 1 = _
      rw [hdead, Finset.card_insert_of_notMem hnot, hb.recycled]
      omega
    · rw [hheld₂]
      split
      · rfl
      · exact hj
  · rename_i hmore
    refine ⟨hb.setShare hs (show 0 < s.refs - 1 by omega) ?_ (fun j hj => ?_) (fun j => ?_),
      Keeps.setShare hb hs⟩
    · simp [Multiset.count_erase_self, hrefs]
    · exact Multiset.count_erase_of_ne hj H
    · by_cases hj : j = p.id
      · subst hj
        rw [Multiset.count_erase_self]
        omega
      · rw [Multiset.count_erase_of_ne hj]

theorem Books.release_added {p : Payload} (hb : pool.Books (H + {p.id}) extra) :
    (pool.release p).Books H extra ∧ Keeps pool (pool.release p) := by
  have h := hb.release (Multiset.mem_add.2 (Or.inr (Multiset.mem_singleton_self _)))
  rwa [Multiset.erase_add_right_pos _ (Multiset.mem_singleton_self _), Multiset.erase_singleton,
    add_zero] at h

theorem Books.releaseAll : ∀ {pool : Pool} {H : Multiset Nat} (ps : List Payload),
    pool.Books H extra → (↑(ps.map (·.id)) : Multiset Nat) ≤ H →
      (pool.releaseAll ps).Books (H - ↑(ps.map (·.id))) extra ∧ Keeps pool (pool.releaseAll ps)
  | pool, H, [], hb, _ => by simpa [Pool.releaseAll] using ⟨hb, Keeps.refl pool⟩
  | pool, H, p :: ps, hb, hle => by
    have hid : p.id ∈ H := Multiset.mem_of_le hle (by simp)
    obtain ⟨hb₁, hk₁⟩ := hb.release hid
    have hle₁ : (↑(ps.map (·.id)) : Multiset Nat) ≤ H.erase p.id := by
      rw [← Multiset.cons_le_cons_iff p.id, Multiset.cons_erase hid]
      simpa using hle
    obtain ⟨hb₂, hk₂⟩ := Books.releaseAll ps hb₁ hle₁
    simp only [List.map_cons, ← Multiset.cons_coe, Multiset.sub_cons] at hb₂ hk₂ ⊢
    exact ⟨hb₂, hk₁.trans hk₂⟩

theorem Books.markSent (hb : pool.Books H extra) (p : Payload) :
    (pool.markSent p).2.Books H extra ∧ Keeps pool (pool.markSent p).2 := by
  unfold Pool.markSent
  cases hs : pool.share? p.id with
  | none => exact ⟨hb, Keeps.refl pool⟩
  | some s =>
    have hpos : 0 < s.refs := hb.pos _ (mem_of_share? hs)
    have hc : H.count p.id = s.refs := by
      rw [← hb.exact]
      simp [held, hs]
    exact ⟨hb.setShare hs hpos hc (fun _ _ => rfl) (fun _ => Iff.rfl), Keeps.setShare hb hs⟩

theorem Books.retainAll : ∀ {pool : Pool} {H : Multiset Nat} (fs : List Queued),
    pool.Books H extra → (∀ f ∈ fs, f.payload.id ∈ H) →
      (fs.foldl (fun p f => p.retain f.payload) pool).Books (H + ↑(fs.map (·.payload.id))) extra ∧
        Keeps pool (fs.foldl (fun p f => p.retain f.payload) pool)
  | pool, H, [], hb, _ => by simpa using ⟨hb, Keeps.refl pool⟩
  | pool, H, f :: fs, hb, hf => by
    obtain ⟨hb₁, hk₁⟩ := hb.retain (hf f List.mem_cons_self)
    obtain ⟨hb₂, hk₂⟩ := Books.retainAll fs hb₁ fun f' hf' =>
      Multiset.mem_add.2 (.inl (hf f' (List.mem_cons_of_mem _ hf')))
    simp only [List.foldl_cons, List.map_cons, ← Multiset.cons_coe] at hb₂ hk₂ ⊢
    refine ⟨?_, hk₁.trans hk₂⟩
    rwa [← Multiset.singleton_add, ← add_assoc]

end Pool

theorem Fragments.split_books {pool pool' : Pool} {H : Multiset Nat} {extra : Nat} {m : Queued}
    {g c : Nat} {frags : List Queued} (hb : pool.Books H extra) (hm : m.payload.id ∈ H)
    (h : Fragments.split pool m g c = .ok (frags, pool')) :
    pool'.Books ((H + ↑(frags.map (·.payload.id))).erase m.payload.id) extra ∧ Pool.Keeps pool pool' ∧
      ∀ f ∈ frags, f.payload = m.payload := by
  unfold Fragments.split at h
  simp only [bind, Except.bind] at h
  split at h
  · cases h
  · rename_i rs _
    simp only [pure, Except.pure, Except.ok.injEq, Prod.mk.injEq] at h
    obtain ⟨rfl, rfl⟩ := h
    have hsame : ∀ f ∈ rs.map (fun r => { m with fragment := some r }), f.payload = m.payload := by
      intro f hf
      obtain ⟨r, -, rfl⟩ := List.mem_map.1 hf
      rfl
    obtain ⟨hb₁, hk₁⟩ := hb.retainAll _ fun f hf => hsame f hf ▸ hm
    obtain ⟨hb₂, hk₂⟩ := hb₁.release (Multiset.mem_add.2 (.inl hm))
    exact ⟨hb₂, hk₁.trans hk₂, hsame⟩

end ReliableUdp
