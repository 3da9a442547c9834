import ReliableUdp.Buffers.Pool

/-!
# Recycling keeps the pool bounded and clean

`Pool.Clean`: at most `max` spares of each kind, every spare empty or blank. Every call keeps
it, and `getStorage` takes the newest spare buffer large enough (`pool_recycles_cleanly`).
-/

namespace ReliableUdp

def Storage.Ready (min : Nat) (b : Storage) : Prop := b.data = [] ∧ min ≤ b.cap

structure Incoming.Blank (m : Incoming) : Prop where
  kind : m.kind = .unconnected
  handle : m.handle = none
  sender : m.sender = none
  empty : m.storage.data = []

theorem Incoming.reset_blank (m : Incoming) : m.reset.Blank := ⟨rfl, rfl, rfl, rfl⟩

def Incoming.Ready (min : Nat) (m : Incoming) : Prop := m.Blank ∧ min ≤ m.storage.cap

namespace Pool

structure Spares (n : Nat) (P : α → Prop) (l : List α) : Prop where
  length_le : l.length ≤ n
  all : ∀ x ∈ l, P x

namespace Spares

variable {n : Nat} {P : α → Prop} {l : List α}

theorem nil : Spares n P [] := ⟨Nat.zero_le _, fun _ h => nomatch h⟩

theorem sublist (h : Spares n P l) {l' : List α} (hs : l'.Sublist l) : Spares n P l' :=
  ⟨Nat.le_trans hs.length_le h.length_le, fun x hx => h.all x (hs.subset hx)⟩

theorem push (h : Spares n P l) (hroom : l.length < n) {x : α} (hx : P x) : Spares n P (l ++ [x]) := by
  refine ⟨by rw [List.length_append, List.length_singleton]; exact hroom, fun y hy => ?_⟩
  rcases List.mem_append.1 hy with hy | hy
  · exact h.all y hy
  · rw [List.mem_singleton.1 hy]
    exact hx

theorem getLast? (h : Spares n P l) {x : α} (hx : l.getLast? = some x) :
    P x ∧ Spares n P l.dropLast :=
  ⟨h.all x (List.mem_of_getLast? hx), h.sublist (List.dropLast_sublist l)⟩

end Spares

/-- What the pool keeps: at most `max` of each kind of spare, the buffers and outgoing messages
empty and the incoming messages blank. -/
structure Clean (pool : Pool) : Prop where
  storage : Spares pool.max (fun b : Storage => b.data = []) pool.storage
  outWrappers : Spares pool.max (fun m : Storage => m.data = []) pool.outWrappers
  inWrappers : Spares pool.max Incoming.Blank pool.inWrappers

theorem clean_new (max : Nat) : ({ max } : Pool).Clean := ⟨.nil, .nil, .nil⟩

/-! ### Taking the newest spare buffer that is large enough -/

def LastFit (min : Nat) (s : List Storage) (b : Storage) (rest : List Storage) : Prop :=
  ∃ older newer, s = older ++ b :: newer ∧ min ≤ b.cap ∧ (∀ x ∈ newer, x.cap < min) ∧
    rest = older ++ newer

section LastFit

variable {min : Nat} {s rest : List Storage} {b : Storage}

theorem LastFit.mem (h : LastFit min s b rest) : b ∈ s := by
  obtain ⟨older, newer, rfl, -⟩ := h
  simp

theorem LastFit.le_cap (h : LastFit min s b rest) : min ≤ b.cap := by
  obtain ⟨-, -, -, hb, -⟩ := h
  exact hb

theorem LastFit.sublist (h : LastFit min s b rest) : rest.Sublist s := by
  obtain ⟨older, newer, rfl, -, -, rfl⟩ := h
  exact List.Sublist.append_left (List.sublist_cons_self _ _) _

end LastFit

/-- What `getStorage` does: it takes the last spare buffer of at least `min` bytes and keeps the
others in order, or, with none, makes a buffer of exactly `min` bytes. -/
def TakesNewest (pool : Pool) (min : Nat) (r : Storage × Pool) : Prop :=
  (∃ rest, LastFit min pool.storage r.1 rest ∧ r.2 = { pool with storage := rest }) ∨
  ((∀ b ∈ pool.storage, b.cap < min) ∧ r = ({ cap := min }, pool))

theorem takeLast_none {p : α → Bool} : ∀ {l : List α}, takeLast p l = none → ∀ x ∈ l, p x = false
  | [], _, x, hx => nomatch hx
  | y :: ys, h, x, hx => by
    simp only [takeLast] at h
    -- a hit further on, or at `y`, would have been taken
    cases hl : takeLast p ys with
    | some r => rw [hl] at h; cases h
    | none =>
      rw [hl] at h
      have hy : p y = false := by
        cases hpy : p y with
        | false => rfl
        | true => rw [if_pos hpy] at h; cases h
      rcases List.mem_cons.1 hx with rfl | hx
      · exact hy
      · exact takeLast_none hl x hx

theorem takeLast_some {p : α → Bool} : ∀ {l : List α} {y : α} {rest : List α},
    takeLast p l = some (y, rest) →
    ∃ older newer, l = older ++ y :: newer ∧ p y = true ∧ (∀ x ∈ newer, p x = false) ∧
      rest = older ++ newer
  | [], _, _, h => nomatch h
  | x :: xs, y, rest, h => by
    simp only [takeLast] at h
    cases hl : takeLast p xs with
    | some r =>
      -- the hit lies further on: `x` stays in front of it
      obtain ⟨y', rest'⟩ := r
      rw [hl] at h
      cases h
      obtain ⟨older, newer, hxs, hy, hnewer, hrest⟩ := takeLast_some hl
      exact ⟨x :: older, newer, by rw [hxs]; rfl, hy, hnewer, by rw [hrest]; rfl⟩
    | none =>
      rw [hl] at h
      cases hpx : p x with
      | false => rw [if_neg (by simp [hpx])] at h; cases h
      | true =>
        rw [if_pos hpx] at h
        cases h
        exact ⟨[], xs, rfl, hpx, takeLast_none hl, rfl⟩

theorem getStorage_takesNewest (pool : Pool) (min : Nat) :
    TakesNewest pool min (pool.getStorage min) := by
  unfold getStorage
  cases ht : takeLast (·.cap ≥ min) pool.storage with
  | some r =>
    obtain ⟨b, rest⟩ := r
    obtain ⟨older, newer, hs, hb, hnewer, hrest⟩ := takeLast_some ht
    refine .inl ⟨rest, ⟨older, newer, hs, by simpa using hb, fun x hx => ?_, hrest⟩, rfl⟩
    simpa using hnewer x hx
  | none => exact .inr ⟨fun b hb => by simpa using takeLast_none ht b hb, rfl⟩

example :
    let pool := ((({ max := 10 } : Pool).recycleStorage { cap := 20 }).recycleStorage
      { cap := 30 }).recycleStorage { cap := 5 }
    (pool.getStorage 10).1.cap = 30 ∧ (pool.getStorage 10).2.storage.map (·.cap) = [20, 5] := by
  decide

theorem createIncoming_spec (pool : Pool) (min : Nat) :
    (∃ m, pool.inWrappers.getLast? = some m ∧
      pool.createIncoming min =
        ({ m with
            storage := (Pool.refit { pool with inWrappers := pool.inWrappers.dropLast } m.storage min).1 },
          (Pool.refit { pool with inWrappers := pool.inWrappers.dropLast } m.storage min).2)) ∨
    (pool.inWrappers.getLast? = none ∧
      pool.createIncoming min = ({ storage := (pool.getStorage min).1 }, (pool.getStorage min).2)) := by
  unfold Pool.createIncoming
  split
  · rename_i m hm
    exact .inl ⟨m, hm, rfl⟩
  · rename_i hm
    exact .inr ⟨hm, rfl⟩

/-! ### Every call keeps the pool clean -/

variable {pool : Pool}

theorem Clean.getStorage (h : pool.Clean) (min : Nat) :
    (pool.getStorage min).2.Clean ∧ (pool.getStorage min).1.Ready min := by
  rcases getStorage_takesNewest pool min with ⟨rest, hfit, heq⟩ | ⟨-, heq⟩
  · -- a spare buffer: it was empty, and the others stay in order
    have hready : (pool.getStorage min).1.Ready min := ⟨h.storage.all _ hfit.mem, hfit.le_cap⟩
    rw [heq]
    exact ⟨⟨h.storage.sublist hfit.sublist, h.outWrappers, h.inWrappers⟩, hready⟩
  · rw [heq]
    exact ⟨h, rfl, Nat.le_refl _⟩

theorem Clean.recycleStorage (h : pool.Clean) (b : Storage) : (pool.recycleStorage b).Clean := by
  unfold Pool.recycleStorage
  split
  · exact h
  · split
    · rename_i hroom
      exact ⟨h.storage.push hroom rfl, h.outWrappers, h.inWrappers⟩
    · exact h

theorem Clean.refit (h : pool.Clean) {b : Storage} (hb : b.data = []) (min : Nat) :
    (pool.refit b min).2.Clean ∧ (pool.refit b min).1.Ready min := by
  unfold Pool.refit
  split
  · obtain ⟨h₁, hready⟩ := h.getStorage min
    exact ⟨h₁.recycleStorage b, hready⟩
  · rename_i hbig
    exact ⟨h, hb, Nat.le_of_not_lt hbig⟩

theorem Clean.createOutgoing (h : pool.Clean) (min : Nat) :
    (pool.createOutgoing min).2.Clean ∧ (pool.createOutgoing min).1.Ready min := by
  unfold Pool.createOutgoing
  split
  · rename_i m hm
    obtain ⟨hempty, hrest⟩ := h.outWrappers.getLast? hm
    have h₁ : ({ pool with outWrappers := pool.outWrappers.dropLast } : Pool).Clean :=
      ⟨h.storage, hrest, h.inWrappers⟩
    exact h₁.refit hempty min
  · exact h.getStorage min

theorem Clean.createIncoming (h : pool.Clean) (min : Nat) :
    (pool.createIncoming min).2.Clean ∧ (pool.createIncoming min).1.Ready min := by
  rcases createIncoming_spec pool min with ⟨m, hm, heq⟩ | ⟨-, heq⟩
  · -- the newest spare message, with its buffer made large enough
    obtain ⟨hblank, hrest⟩ := h.inWrappers.getLast? hm
    have h₀ : ({ pool with inWrappers := pool.inWrappers.dropLast } : Pool).Clean :=
      ⟨h.storage, h.outWrappers, hrest⟩
    obtain ⟨h₁, hempty, hfit⟩ := h₀.refit hblank.empty min
    rw [heq]
    exact ⟨h₁, ⟨hblank.kind, hblank.handle, hblank.sender, hempty⟩, hfit⟩
  · obtain ⟨h₁, hempty, hfit⟩ := h.getStorage min
    rw [heq]
    exact ⟨h₁, ⟨rfl, rfl, rfl, hempty⟩, hfit⟩

theorem Clean.recycleOutgoing (h : pool.Clean) (m : Storage) : (pool.recycleOutgoing m).Clean := by
  unfold Pool.recycleOutgoing
  dsimp only
  split
  · rename_i hroom
    exact ⟨h.storage, h.outWrappers.push hroom rfl, h.inWrappers⟩
  · -- the wrappers are full: the buffer goes to the spare buffers
    have h₁ : ({ pool with recycledOut := pool.recycledOut + 1 } : Pool).Clean :=
      ⟨h.storage, h.outWrappers, h.inWrappers⟩
    exact h₁.recycleStorage m.clear

theorem Clean.recycleIncoming (h : pool.Clean) (m : Incoming) : (pool.recycleIncoming m).Clean := by
  unfold Pool.recycleIncoming
  split
  · rename_i hroom
    exact ⟨h.storage, h.outWrappers, h.inWrappers.push hroom m.reset_blank⟩
  · exact h.recycleStorage m.reset.storage

/-! ### The spare buffers stay in the order they were given back -/

def Appends (s s' : List Storage) : Prop := ∃ kept added, kept.Sublist s ∧ s' = kept ++ added

theorem Appends.refl (s : List Storage) : Appends s s := ⟨s, [], List.Sublist.refl s, by simp⟩

theorem Appends.trans {s₁ s₂ s₃ : List Storage} (h₁ : Appends s₁ s₂) (h₂ : Appends s₂ s₃) :
    Appends s₁ s₃ := by
  obtain ⟨kept₁, added₁, hk₁, rfl⟩ := h₁
  obtain ⟨kept₂, added₂, hk₂, rfl⟩ := h₂
  -- what the second call keeps splits into some of the first kept and some of the first added
  obtain ⟨front, back, rfl, hfront, -⟩ := List.sublist_append_iff.1 hk₂
  exact ⟨front, back ++ added₂, hfront.trans hk₁, by simp⟩

theorem getStorage_appends (pool : Pool) (min : Nat) :
    Appends pool.storage (pool.getStorage min).2.storage := by
  rcases getStorage_takesNewest pool min with ⟨rest, hfit, heq⟩ | ⟨-, heq⟩
  · rw [heq]
    exact ⟨rest, [], hfit.sublist, by simp⟩
  · rw [heq]
    exact Appends.refl _

theorem recycleStorage_appends (pool : Pool) (b : Storage) :
    Appends pool.storage (pool.recycleStorage b).storage := by
  unfold Pool.recycleStorage
  split
  · exact Appends.refl _
  · split
    · exact ⟨pool.storage, [b.clear], List.Sublist.refl _, rfl⟩
    · exact Appends.refl _

theorem refit_appends (pool : Pool) (b : Storage) (min : Nat) :
    Appends pool.storage (pool.refit b min).2.storage := by
  unfold Pool.refit
  split
  · exact (getStorage_appends pool min).trans (recycleStorage_appends _ b)
  · exact Appends.refl _

theorem createOutgoing_appends (pool : Pool) (min : Nat) :
    Appends pool.storage (pool.createOutgoing min).2.storage := by
  unfold Pool.createOutgoing
  split
  · exact refit_appends { pool with outWrappers := pool.outWrappers.dropLast } _ min
  · exact getStorage_appends pool min

theorem createIncoming_appends (pool : Pool) (min : Nat) :
    Appends pool.storage (pool.createIncoming min).2.storage := by
  rcases createIncoming_spec pool min with ⟨m, -, heq⟩ | ⟨-, heq⟩
  · rw [heq]
    exact refit_appends { pool with inWrappers := pool.inWrappers.dropLast } m.storage min
  · rw [heq]
    exact getStorage_appends pool min

theorem recycleOutgoing_appends (pool : Pool) (m : Storage) :
    Appends pool.storage (pool.recycleOutgoing m).storage := by
  unfold Pool.recycleOutgoing
  dsimp only
  split
  · exact Appends.refl _
  · exact recycleStorage_appends { pool with recycledOut := pool.recycledOut + 1 } m.clear

theorem recycleIncoming_appends (pool : Pool) (m : Incoming) :
    Appends pool.storage (pool.recycleIncoming m).storage := by
  unfold Pool.recycleIncoming
  split
  · exact Appends.refl _
  · exact recycleStorage_appends pool m.reset.storage

/-! ### Calls on a pool -/

inductive Call where
  | getStorage (min : Nat)
  | recycleStorage (b : Storage)
  | createOutgoing (min : Nat)
  | recycleOutgoing (m : Storage)
  | createIncoming (min : Nat)
  | recycleIncoming (m : Incoming)

namespace Call

def apply : Call → Pool → Pool
  | .getStorage min, pool => (pool.getStorage min).2
  | .recycleStorage b, pool => pool.recycleStorage b
  | .createOutgoing min, pool => (pool.createOutgoing min).2
  | .recycleOutgoing m, pool => pool.recycleOutgoing m
  | .createIncoming min, pool => (pool.createIncoming min).2
  | .recycleIncoming m, pool => pool.recycleIncoming m

def applyAll (cs : List Call) (pool : Pool) : Pool := cs.foldl (fun pool c => c.apply pool) pool

theorem apply_clean (c : Call) (h : pool.Clean) : (c.apply pool).Clean := by
  cases c with
  | getStorage min => exact (h.getStorage min).1
  | recycleStorage b => exact h.recycleStorage b
  | createOutgoing min => exact (h.createOutgoing min).1
  | recycleOutgoing m => exact h.recycleOutgoing m
  | createIncoming min => exact (h.createIncoming min).1
  | recycleIncoming m => exact h.recycleIncoming m

theorem applyAll_clean (cs : List Call) (h : pool.Clean) : (applyAll cs pool).Clean := by
  induction cs generalizing pool with
  | nil => exact h
  | cons c cs ih => exact ih (c.apply_clean h)

theorem apply_appends (c : Call) (pool : Pool) : Appends pool.storage (c.apply pool).storage := by
  cases c with
  | getStorage min => exact getStorage_appends pool min
  | recycleStorage b => exact recycleStorage_appends pool b
  | createOutgoing min => exact createOutgoing_appends pool min
  | recycleOutgoing m => exact recycleOutgoing_appends pool m
  | createIncoming min => exact createIncoming_appends pool min
  | recycleIncoming m => exact recycleIncoming_appends pool m

end Call

/-- After any calls on a new pool of size `max`: the pool holds at most `max` spares of each
kind, its buffers and outgoing messages empty and its incoming messages blank; every buffer or
message the next call hands out is so too, with at least the capacity asked for; `getStorage`
takes the last spare buffer that is large enough and keeps the others in order; and every call
keeps the spare buffers it leaves in order and adds new ones after them, so that the last one is
the most recently given back. -/
theorem pool_recycles_cleanly (max : Nat) (cs : List Call) :
    let pool := Call.applyAll cs { max }
    pool.Clean ∧
    (∀ min, (pool.getStorage min).1.Ready min ∧ (pool.createOutgoing min).1.Ready min ∧
      (pool.createIncoming min).1.Ready min) ∧
    (∀ min, TakesNewest pool min (pool.getStorage min)) ∧
    ∀ c : Call, Appends pool.storage (c.apply pool).storage := by
  intro pool
  have h : pool.Clean := Call.applyAll_clean cs (clean_new max)
  exact ⟨h, fun min => ⟨(h.getStorage min).2, (h.createOutgoing min).2, (h.createIncoming min).2⟩,
    getStorage_takesNewest pool, fun c => c.apply_appends pool⟩

example :
    let pool := Call.applyAll [.recycleOutgoing { data := [97, 98, 99], cap := 8 }] { max := 10 }
    (pool.createOutgoing 4).1 = { data := [], cap := 8 } := by
  decide

end Pool
end ReliableUdp
