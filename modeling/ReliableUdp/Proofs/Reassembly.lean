import Mathlib.Logic.Function.Basic
import ReliableUdp.Engine.Fragments

/-!
# Cutting messages into fragments and putting them back together

A cut gives `⌈len / c⌉` fragments whose ranges partition the message, and the assembler answers
every sequence of adds as the reference `Arrivals` does (`fragments_reassemble`). A copy
arriving after completion opens the group anew (`single_fragment_twice`).
-/

namespace ReliableUdp

/-! ## Cutting -/

def Queued.span (q : Queued) : List Nat :=
  match q.fragment with
  | some (_, start, stop) => List.range' start (stop - start)
  | none => List.range q.payload.data.length

namespace Fragments

variable {len c : Nat}

theorem count_covers (hl : 0 < len) (hc : 0 < c) :
    ((len + c - 1) / c - 1) * c < len ∧ len ≤ (len + c - 1) / c * c := by
  have h1 := Nat.div_add_mod (len + c - 1) c
  have h2 := Nat.mod_lt (len + c - 1) hc
  rw [Nat.sub_one_mul, Nat.mul_comm ((len + c - 1) / c)]
  omega

theorem ranges_eq {group : Nat} (hl : 0 < len) (hc : 0 < c) (hn : len ≤ 65535 * c) :
    ranges len group c = .ok ((List.range ((len + c - 1) / c)).map fun i =>
      ({ group, total := (len + c - 1) / c, index := i }, i * c, min (i * c + c) len)) := by
  have hcount : (len + c - 1) / c ≤ 65535 :=
    Nat.le_of_lt_succ ((Nat.div_lt_iff_lt_mul hc).2 (by omega))
  simp [ranges, count, Nat.pos_iff_ne_zero.1 hc, bind, Except.bind, Nat.not_lt.2 hcount, pure,
    Except.pure]

theorem flatten_spans : ∀ k, k * c < len + c →
    ((List.range k).map fun i => List.range' (i * c) (min (i * c + c) len - i * c)).flatten =
      List.range' 0 (min (k * c) len)
  | 0, _ => by simp
  | k + 1, hk => by
    have hlt : k * c < len := by rw [Nat.succ_mul] at hk; omega
    rw [List.range_succ, List.map_append, List.flatten_append, flatten_spans k (by omega),
      Nat.min_eq_left (Nat.le_of_lt hlt)]
    simp only [List.map_cons, List.map_nil, List.flatten_cons, List.flatten_nil, List.append_nil]
    have hcat := @List.range'_append 0 (k * c) (min (k * c + c) len - k * c) 1
    rw [Nat.zero_add, Nat.one_mul] at hcat
    rw [hcat, Nat.succ_mul]
    congr 1
    omega

theorem flatten_pieces (P : Bytes) : ∀ k, k * c < P.length + c →
    ((List.range k).map fun i => (P.drop (i * c)).take (min (i * c + c) P.length - i * c)).flatten =
      P.take (min (k * c) P.length)
  | 0, _ => by simp
  | k + 1, hk => by
    have hlt : k * c < P.length := by rw [Nat.succ_mul] at hk; omega
    rw [List.range_succ, List.map_append, List.flatten_append, flatten_pieces P k (by omega),
      Nat.min_eq_left (Nat.le_of_lt hlt)]
    simp only [List.map_cons, List.map_nil, List.flatten_cons, List.flatten_nil, List.append_nil]
    rw [← List.take_add, Nat.succ_mul]
    congr 1
    omega

theorem split_spec (pool : Pool) (msg : Queued) (group : Nat) (hl : 0 < msg.payload.data.length)
    (hc : 0 < c) (hn : msg.payload.data.length ≤ 65535 * c) :
    ∃ frags pool', split pool msg group c = .ok (frags, pool') ∧
      (frags.length - 1) * c < msg.payload.data.length ∧
      msg.payload.data.length ≤ frags.length * c ∧
      (∀ i (hi : i < frags.length), frags[i].tag = some { group, total := frags.length, index := i }) ∧
      (frags.map Queued.span).flatten = List.range msg.payload.data.length ∧
      (∀ f ∈ frags, f.data.length ≤ c) ∧
      (frags.map Queued.data).flatten = msg.payload.data := by
  obtain ⟨hlo, hhi⟩ := count_covers hl hc
  refine ⟨?frags, ?pool, ?cut, ?_⟩
  case cut =>
    simp only [split, ranges_eq hl hc hn, bind, Except.bind, pure, Except.pure]
    rfl
  -- the fragments are the pieces `i * c ..< min (i * c + c) len`
  simp only [List.length_map, List.length_range, List.getElem_map, List.getElem_range,
    Queued.tag, List.map_map, List.forall_mem_map, List.mem_range]
  refine ⟨hlo, hhi, fun i hi => rfl, ?_, fun i _ => ?_, ?_⟩
  · have hspans := @flatten_spans msg.payload.data.length c
      ((msg.payload.data.length + c - 1) / c) (by rw [Nat.sub_one_mul] at hlo; omega)
    rw [Nat.min_eq_right hhi] at hspans
    exact (show _ = _ from rfl).trans (hspans.trans List.range_eq_range'.symm)
  · simp only [Function.comp_apply, Queued.data, List.length_take, List.length_drop]
    omega
  · have hpieces := flatten_pieces (c := c) msg.payload.data
      ((msg.payload.data.length + c - 1) / c) (by rw [Nat.sub_one_mul] at hlo; omega)
    rw [Nat.min_eq_right hhi, List.take_length] at hpieces
    exact (show _ = _ from rfl).trans hpieces

end Fragments

/-! ## Reassembly, as the reference sees it -/

/-- One fragment group as a reassembler must see it: closed, or open with its fragment count and
the fragments that arrived since it opened, oldest first. -/
abbrev Arrivals := Option (Nat × List (Nat × Bytes))

namespace Arrivals

def complete (t : Nat) (rs : List (Nat × Bytes)) : Bool :=
  (List.range t).all fun i => (List.lookup i rs).isSome

def firstCopies (t : Nat) (rs : List (Nat × Bytes)) : Bytes :=
  ((List.range t).filterMap fun i => List.lookup i rs).flatten

def add (x : Arrivals) (tag : FragmentTag) (data : Bytes) : Except Fault (Option Bytes) × Arrivals :=
  let (t, rs) := x.getD (tag.total, [])
  if t ≠ tag.total then (.error (.fragmentCount tag.group tag.total t), none)
  else
    let rs := rs ++ [(tag.index, data)]
    if complete t rs then (.ok (some (firstCopies t rs)), none) else (.ok none, some (t, rs))

def feed (x : Arrivals) : List (FragmentTag × Bytes) → List (Except Fault (Option Bytes)) × Arrivals
  | [] => ([], x)
  | (tag, data) :: fs =>
    let (r, x) := add x tag data
    let (rs, x) := feed x fs
    (r :: rs, x)

theorem lookup_append_single (i j : Nat) (d : Bytes) (rs : List (Nat × Bytes)) :
    List.lookup i (rs ++ [(j, d)]) = if List.lookup i rs = none ∧ i = j then some d else List.lookup i rs := by
  rw [List.lookup_append]
  cases h : List.lookup i rs with
  | some _ => simp
  | none =>
    by_cases hij : i = j
    · simp [hij]
    · have hne : (i == j) = false := by simpa using hij
      simp [List.lookup_cons, hij, hne]

theorem complete_iff {t : Nat} {rs : List (Nat × Bytes)} :
    complete t rs = true ↔ ((List.range t).map fun i => List.lookup i rs).countP Option.isSome = t := by
  have h := @List.countP_eq_length _ (List.range t) (Option.isSome ∘ fun i => List.lookup i rs)
  rw [List.length_range] at h
  rw [List.countP_map, h]
  simp [complete]

end Arrivals

namespace Assembler

variable {a : Assembler}

theorem find?_remove (a : Assembler) (id id' : Nat) :
    (a.remove id).find? id' = if id' = id then none else a.find? id' := by
  unfold remove find?
  induction a.groups with
  | nil => simp
  | cons p ps ih =>
    by_cases h : p.1 = id <;> by_cases h' : p.1 = id' <;> simp_all

theorem find?_put (a : Assembler) (id id' : Nat) (g : Group) :
    (a.put id g).find? id' = if id' = id then some g else a.find? id' := by
  unfold put find?
  split
  · -- the entry is replaced where it stands; the keys stay as they are
    rename_i hsome
    rw [List.find?_map]
    have hkey : ((fun x : Nat × Group => x.1 == id') ∘ fun (i, h) => if i == id then (i, g) else (i, h)) =
        fun x => x.1 == id' := by
      funext x
      simp only [Function.comp_apply]
      split <;> rfl
    rw [hkey, Option.map_map]
    by_cases h : id' = id
    · subst h
      obtain ⟨x, hx⟩ := Option.isSome_iff_exists.1 (by rwa [Option.isSome_map] at hsome)
      have hx1 : x.1 = id' := by simpa using List.find?_some hx
      obtain ⟨i, gx⟩ := x
      simp only at hx1
      subst hx1
      simp [hx]
    · rw [if_neg h]
      cases hx : List.find? (fun x => x.1 == id') a.groups with
      | none => rfl
      | some x =>
        have hx1 : x.1 = id' := by simpa using List.find?_some hx
        obtain ⟨i, gx⟩ := x
        simp only at hx1
        subst hx1
        simp [h]
  · -- a new entry goes last, after every entry of another key
    rename_i hnone
    have hfind : List.find? (fun x => x.1 == id) a.groups = none := by
      cases hf : List.find? (fun x => x.1 == id) a.groups with
      | none => rfl
      | some x => simp [hf] at hnone
    rw [List.find?_append]
    by_cases h : id' = id
    · subst h
      simp [hfind]
    · simp [h, Ne.symm h]

/-- A group's slots hold the first copy of each fragment that arrived since it opened, its counter
counts the filled slots, and some fragment is still missing. -/
structure Group.Holds (g : Group) (t : Nat) (rs : List (Nat × Bytes)) : Prop where
  slots : g.slots = (List.range t).map fun i => List.lookup i rs
  received : g.received = g.slots.countP Option.isSome
  missing : Arrivals.complete t rs = false

def Tracks (a : Assembler) (id : Nat) : Arrivals → Prop
  | none => a.find? id = none
  | some (t, rs) => ∃ g, a.find? id = some g ∧ g.Holds t rs

theorem holds_start {x : Arrivals} {tag : FragmentTag} (now : Nat) (hx : a.Tracks tag.group x)
    (hi : tag.index < tag.total) :
    ((a.find? tag.group).getD { slots := List.replicate tag.total none, received := 0, started := now }).Holds
      (x.getD (tag.total, [])).1 (x.getD (tag.total, [])).2 := by
  cases x with
  | none =>
    rw [show a.find? tag.group = none from hx]
    refine ⟨by simp [List.map_const'], by simp [List.countP_replicate], ?_⟩
    simp only [Arrivals.complete, Option.getD_none, List.lookup_nil, Option.isSome_none,
      List.all_eq_false, List.mem_range]
    exact ⟨0, by omega, Bool.false_ne_true⟩
  | some p =>
    obtain ⟨g, hf, hh⟩ := hx
    rw [hf]
    exact hh

theorem add_spec {x : Arrivals} {tag : FragmentTag} (data : Bytes) (now : Nat)
    (hx : a.Tracks tag.group x) (hi : tag.index < tag.total) :
    ∃ a', a.add tag data now = .ok ((Arrivals.add x tag data).1, a') ∧
      a'.Tracks tag.group (Arrivals.add x tag data).2 ∧ ∀ id ≠ tag.group, a'.find? id = a.find? id := by
  have hstart := holds_start now hx hi
  dsimp only [Assembler.add, Arrivals.add]
  generalize (a.find? tag.group).getD ⟨List.replicate tag.total none, 0, now⟩ = G at hstart ⊢
  generalize x.getD (tag.total, []) = X at hstart ⊢
  obtain ⟨t, rs⟩ := X
  have hlen : G.slots.length = t := by rw [hstart.slots]; simp
  dsimp only at hstart ⊢
  by_cases ht : t ≠ tag.total
  · -- a count that disagrees closes the group
    refine ⟨(a.put tag.group G).remove tag.group, by simp [hlen, ht],
      by simp [ht, Tracks, find?_remove], fun id hid => by simp [find?_remove, find?_put, hid]⟩
  obtain rfl : t = tag.total := by omega
  have hi' : tag.index < G.slots.length := by omega
  rw [if_neg (by rw [hlen]; exact ht), dif_pos hi']
  simp only [ne_eq, not_true_eq_false, if_false]
  -- the slot of the fragment holds its first copy
  have hslot : G.slots[tag.index] = List.lookup tag.index rs := by simp [hstart.slots]
  have hlookup := fun i => Arrivals.lookup_append_single i tag.index data rs
  split
  · -- a repeat: nothing changes but the list of arrivals
    rename_i d₀ hd₀
    have hsame : ∀ i, List.lookup i (rs ++ [(tag.index, data)]) = List.lookup i rs := by
      intro i
      rw [hlookup]
      by_cases hi : i = tag.index
      · simp [hi, ← hslot, hd₀]
      · simp [hi]
    have hc : Arrivals.complete tag.total (rs ++ [(tag.index, data)]) = false := by
      rw [← hstart.missing]
      simp only [Arrivals.complete, hsame]
    refine ⟨a.put tag.group G, by simp [hc], ?_, fun id hid => by simp [find?_put, hid]⟩
    simp only [hc, Bool.false_eq_true, if_false]
    exact ⟨G, by simp [find?_put], ⟨by simp only [hstart.slots, hsame], hstart.received, hc⟩⟩
  · -- a first copy fills its slot
    rename_i hnone
    rw [hslot] at hnone
    have hset : G.slots.set tag.index (some data) =
        (List.range tag.total).map fun i => List.lookup i (rs ++ [(tag.index, data)]) := by
      apply List.ext_getElem (by simp [hlen])
      intro i h₁ h₂
      rw [List.getElem_set, List.getElem_map, List.getElem_range, hlookup]
      by_cases hi : tag.index = i
      · subst hi
        simp [hnone]
      · rw [if_neg hi, if_neg (fun h => hi h.2.symm)]
        simp [hstart.slots]
    have hcount : (G.slots.set tag.index (some data)).countP Option.isSome = G.received + 1 := by
      rw [List.countP_set hi', hstart.received, hslot, hnone]
      simp
    have hcomplete : Arrivals.complete tag.total (rs ++ [(tag.index, data)]) = true ↔
        G.received + 1 = tag.total := by
      rw [Arrivals.complete_iff, ← hset, hcount]
    have hle : G.received + 1 ≤ tag.total := by
      rw [← hcount, ← hlen, ← List.length_set (a := some data) (i := tag.index)]
      exact List.countP_le_length
    rw [List.length_set, hlen]
    split
    · -- some fragment is still missing
      rename_i hlt
      have hc : Arrivals.complete tag.total (rs ++ [(tag.index, data)]) = false := by
        cases h : Arrivals.complete tag.total (rs ++ [(tag.index, data)])
        · rfl
        · exact absurd (hcomplete.1 h) (by omega)
      refine ⟨(a.put tag.group G).put tag.group
        ⟨G.slots.set tag.index (some data), G.received + 1, G.started⟩, by simp [hc], ?_,
        fun id hid => by simp [find?_put, hid]⟩
      simp only [hc, Bool.false_eq_true, if_false]
      exact ⟨⟨G.slots.set tag.index (some data), G.received + 1, G.started⟩, by simp [find?_put],
        ⟨hset, hcount.symm, hc⟩⟩
    · -- the last missing fragment completes the group
      rename_i hge
      have hc : Arrivals.complete tag.total (rs ++ [(tag.index, data)]) = true :=
        hcomplete.2 (by omega)
      refine ⟨(a.put tag.group G).remove tag.group, ?_, by simp [hc, Tracks, find?_remove],
        fun id hid => by simp [find?_remove, find?_put, hid]⟩
      simp only [hc, if_true, hset, List.filterMap_map, Arrivals.firstCopies]
      rfl

theorem tracks_congr {a' : Assembler} {id : Nat} {x : Arrivals} (h : a'.find? id = a.find? id) :
    a'.Tracks id x ↔ a.Tracks id x := by
  cases x <;> simp only [Tracks, h]

def addAll : Assembler → List (FragmentTag × Bytes × Nat) →
    Except Crash (List (Except Fault (Option Bytes)) × Assembler)
  | a, [] => .ok ([], a)
  | a, (tag, data, now) :: cs => do
    let (r, a) ← a.add tag data now
    let (rs, a) ← addAll a cs
    pure (r :: rs, a)

end Assembler

namespace Arrivals

/-! ### The fragments of one message -/

section Pieces

variable (piece : Nat → Bytes)

theorem lookup_pieces (j : Nat) (qs : List Nat) :
    List.lookup j (qs.map fun i => (i, piece i)) = if j ∈ qs then some (piece j) else none := by
  induction qs with
  | nil => simp
  | cons i qs ih =>
    by_cases h : j = i
    · subst h
      simp
    · have hne : (j == i) = false := by simpa using h
      simp [List.lookup_cons, hne, ih, h]

theorem complete_pieces {n : Nat} {qs : List Nat} :
    complete n (qs.map fun i => (i, piece i)) = true ↔ ∀ i < n, i ∈ qs := by
  simp [complete, lookup_pieces]

theorem firstCopies_pieces {qs : List Nat} :
    ∀ {n : Nat}, (∀ i < n, i ∈ qs) →
      firstCopies n (qs.map fun i => (i, piece i)) = ((List.range n).map piece).flatten
  | 0, _ => rfl
  | n + 1, h => by
    have ih := firstCopies_pieces (n := n) fun i hi => h i (by omega)
    unfold firstCopies at ih ⊢
    rw [List.range_succ, List.filterMap_append, List.flatten_append, ih, List.map_append,
      List.flatten_append]
    simp [lookup_pieces, h n (by omega)]

theorem feed_pieces (group n : Nat) :
    ∀ (fs qs : List Nat), fs ≠ [] → (∀ i < n, i ∈ qs ++ fs) → (∃ i < n, i ∉ qs ++ fs.dropLast) →
      feed (some (n, qs.map fun i => (i, piece i))) (fs.map fun i => (⟨group, n, i⟩, piece i)) =
        (fs.dropLast.map (fun _ => .ok none) ++ [.ok (some ((List.range n).map piece).flatten)], none)
  | [], _, hne, _, _ => absurd rfl hne
  | [i], qs, _, hall, _ => by
    have hc := (complete_pieces piece).2 hall
    have hmsg := firstCopies_pieces piece hall
    simp only [List.map_append, List.map_cons, List.map_nil] at hc hmsg
    simp [feed, add, hc, hmsg]
  | i :: j :: fs, qs, _, hall, ⟨k, hk, hmiss⟩ => by
    -- after `i` the set is not complete yet: `k` is still missing
    have hc : complete n ((qs ++ [i]).map fun i => (i, piece i)) = false := by
      cases h : complete n ((qs ++ [i]).map fun i => (i, piece i))
      · rfl
      · have := (complete_pieces piece).1 h k hk
        simp [List.dropLast_cons_cons] at this hmiss
        rcases this with h | h
        · exact absurd h hmiss.1
        · exact absurd h hmiss.2.1
    simp only [List.map_append, List.map_cons, List.map_nil] at hc
    have hadd : add (some (n, qs.map fun i => (i, piece i))) ⟨group, n, i⟩ (piece i) =
        (.ok none, some (n, (qs ++ [i]).map fun i => (i, piece i))) := by
      simp [add, hc]
    have ih := feed_pieces group n (j :: fs) (qs ++ [i]) (by simp) (by simpa using hall)
      ⟨k, hk, by simpa [List.dropLast_cons_cons] using hmiss⟩
    rw [List.map_cons, feed.eq_2, hadd]
    dsimp only
    rw [ih, List.dropLast_cons_cons, List.map_cons, List.cons_append]

end Pieces

def addAll (r : Nat → Arrivals) : List (FragmentTag × Bytes) →
    List (Except Fault (Option Bytes)) × (Nat → Arrivals)
  | [] => ([], r)
  | (tag, data) :: cs =>
    let (res, x) := add (r tag.group) tag data
    let (ress, r) := addAll (Function.update r tag.group x) cs
    (res :: ress, r)

end Arrivals

namespace Assembler

variable {a : Assembler}

theorem addAll_spec {r : Nat → Arrivals} (hr : ∀ id, a.Tracks id (r id))
    (cs : List (FragmentTag × Bytes × Nat)) (hcs : ∀ c ∈ cs, c.1.index < c.1.total) :
    ∃ a', a.addAll cs = .ok ((Arrivals.addAll r (cs.map fun c => (c.1, c.2.1))).1, a') ∧
      ∀ id, a'.Tracks id ((Arrivals.addAll r (cs.map fun c => (c.1, c.2.1))).2 id) := by
  induction cs generalizing a r with
  | nil => exact ⟨a, rfl, hr⟩
  | cons c cs ih =>
    obtain ⟨tag, data, now⟩ := c
    obtain ⟨hi, hcs⟩ := List.forall_mem_cons.1 hcs
    obtain ⟨a₁, hadd, htr, hframe⟩ := add_spec data now (hr tag.group) hi
    -- the reference moves the added group only
    have hr₁ : ∀ id, a₁.Tracks id (Function.update r tag.group (Arrivals.add (r tag.group) tag data).2 id) := by
      intro id
      by_cases hid : id = tag.group
      · subst hid
        simpa using htr
      · rw [Function.update_of_ne hid, tracks_congr (hframe id hid)]
        exact hr id
    obtain ⟨a', hrun, htr'⟩ := ih hr₁ hcs
    exact ⟨a', by simp [addAll, hadd, hrun, Arrivals.addAll, bind, Except.bind, pure, Except.pure], htr'⟩

theorem addAll_group {g : Nat} {x : Arrivals} (hx : a.Tracks g x)
    (cs : List (FragmentTag × Bytes × Nat)) (hcs : ∀ c ∈ cs, c.1.group = g ∧ c.1.index < c.1.total) :
    ∃ a', a.addAll cs = .ok ((Arrivals.feed x (cs.map fun c => (c.1, c.2.1))).1, a') ∧
      a'.Tracks g (Arrivals.feed x (cs.map fun c => (c.1, c.2.1))).2 := by
  induction cs generalizing a x with
  | nil => exact ⟨a, rfl, hx⟩
  | cons c cs ih =>
    obtain ⟨tag, data, now⟩ := c
    obtain ⟨⟨rfl, hi⟩, hcs⟩ := List.forall_mem_cons.1 hcs
    obtain ⟨a₁, hadd, htr, -⟩ := add_spec data now hx hi
    obtain ⟨a', hrun, htr'⟩ := ih htr hcs
    exact ⟨a', by simp [addAll, hadd, hrun, Arrivals.feed, bind, Except.bind, pure, Except.pure], htr'⟩

end Assembler

/-! ## Cutting, then reassembling -/

theorem Arrivals.feed_none_cons (tag : FragmentTag) (d : Bytes) (fs : List (FragmentTag × Bytes)) :
    feed none ((tag, d) :: fs) = feed (some (tag.total, [])) ((tag, d) :: fs) := rfl

theorem Arrivals.feed_none_pieces (piece : Nat → Bytes) (group n : Nat) (fs : List Nat)
    (hne : fs ≠ []) (hall : ∀ i < n, i ∈ fs) (hmiss : ∃ i < n, i ∉ fs.dropLast) :
    feed none (fs.map fun i => (⟨group, n, i⟩, piece i)) =
      (fs.dropLast.map (fun _ => .ok none) ++ [.ok (some ((List.range n).map piece).flatten)], none) := by
  obtain ⟨i, fs', rfl⟩ := List.exists_cons_of_ne_nil hne
  rw [List.map_cons, feed_none_cons]
  exact feed_pieces piece group n (i :: fs') [] hne (by simpa using hall) (by simpa using hmiss)

/-- Cutting and reassembling. A message of `len ≥ 1` bytes cut into pieces of at most `c ≥ 1`
bytes, at most 65535 of them: the cut succeeds with `⌈len / c⌉` fragments tagged with the group,
their count and their index, whose byte ranges partition `[0, len)` in index order, each of at
most `c` bytes. Every sequence of adds to an empty assembler, each index below its count,
succeeds and is answered as the reference answers it. And the fragments of the cut, fed in any
order and with repeats to an assembler without their group, give the message back at the add
that first completes the set, and nothing before; the group is then closed. -/
theorem fragments_reassemble (pool : Pool) (msg : Queued) (group c : Nat)
    (hl : 0 < msg.payload.data.length) (hc : 0 < c) (hn : msg.payload.data.length ≤ 65535 * c) :
    ∃ frags pool', Fragments.split pool msg group c = .ok (frags, pool') ∧
      (frags.length - 1) * c < msg.payload.data.length ∧
      msg.payload.data.length ≤ frags.length * c ∧
      (∀ i (hi : i < frags.length), frags[i].tag = some { group, total := frags.length, index := i }) ∧
      (frags.map Queued.span).flatten = List.range msg.payload.data.length ∧
      (∀ f ∈ frags, f.data.length ≤ c) ∧
      (∀ (timeout : Nat) (cs : List (FragmentTag × Bytes × Nat)), (∀ x ∈ cs, x.1.index < x.1.total) →
        ∃ a', ({ timeout } : Assembler).addAll cs =
          .ok ((Arrivals.addAll (fun _ => none) (cs.map fun x => (x.1, x.2.1))).1, a')) ∧
      ∀ (a : Assembler) (fs : List (Fin frags.length × Nat)), a.find? group = none →
        (∀ i, i ∈ fs.map Prod.fst) → (∃ i, i ∉ fs.dropLast.map Prod.fst) →
        ∃ a', a.addAll (fs.map fun f => (⟨group, frags.length, f.1⟩, frags[f.1].data, f.2)) =
            .ok (fs.dropLast.map (fun _ => .ok none) ++ [.ok (some msg.payload.data)], a') ∧
          a'.find? group = none := by
  obtain ⟨frags, pool', hsplit, hlo, hhi, htag, hspan, hsize, hdata⟩ :=
    Fragments.split_spec pool msg group hl hc hn
  refine ⟨frags, pool', hsplit, hlo, hhi, htag, hspan, hsize, ?_, ?_⟩
  · intro timeout cs hcs
    obtain ⟨a', h, -⟩ := Assembler.addAll_spec (a := { timeout }) (r := fun _ => none)
      (fun _ => rfl) cs hcs
    exact ⟨a', h⟩
  · intro a fs hfresh hall hmiss
    -- fragment `i` carries `piece i`, and the pieces in order make the message
    let piece : Nat → Bytes := fun i => (frags[i]?.map Queued.data).getD []
    have hpiece : ∀ i : Fin frags.length, frags[i].data = piece i := by
      intro i
      simp [piece]
    have hmsg : ((List.range frags.length).map piece).flatten = msg.payload.data := by
      rw [← hdata]
      congr 1
      apply List.ext_getElem (by simp)
      intro i h₁ h₂
      have hi : i < frags.length := by simpa using h₂
      simp [piece, List.getElem?_eq_getElem hi]
    have hne : fs ≠ [] := by
      rintro rfl
      have hpos : 0 < frags.length := by
        rcases Nat.eq_zero_or_pos frags.length with h | h
        · rw [h] at hhi
          omega
        · exact h
      exact absurd (hall ⟨0, hpos⟩) (by simp)
    obtain ⟨a', hrun, htr⟩ := Assembler.addAll_group (x := none) hfresh
      (fs.map fun f : Fin frags.length × Nat => ((⟨group, frags.length, f.1⟩ : FragmentTag),
        frags[f.1].data, f.2))
      (by
        simp only [List.mem_map]
        rintro _ ⟨f, -, rfl⟩
        exact ⟨rfl, f.1.isLt⟩)
    -- the reference sees the pieces arrive in the order of `fs`
    have harr : (fs.map fun f : Fin frags.length × Nat => ((⟨group, frags.length, f.1⟩ : FragmentTag),
        frags[f.1].data, f.2)).map (fun x => (x.1, x.2.1)) =
        (fs.map fun f => f.1.val).map fun i => ((⟨group, frags.length, i⟩ : FragmentTag), piece i) := by
      rw [List.map_map, List.map_map]
      exact List.map_congr_left fun f _ => by simp only [Function.comp_apply, hpiece]
    have hidx : (fs.map fun f => f.1.val) = (fs.map Prod.fst).map Fin.val := by
      rw [List.map_map]
      rfl
    have hall' : ∀ i < frags.length, i ∈ fs.map fun f => f.1.val := fun i hi => by
      rw [hidx]
      exact List.mem_map.2 ⟨_, hall ⟨i, hi⟩, rfl⟩
    have hmiss' : ∃ i < frags.length, i ∉ (fs.map fun f => f.1.val).dropLast := by
      obtain ⟨i, hi⟩ := hmiss
      refine ⟨i, i.isLt, fun h => hi ?_⟩
      rw [hidx, ← List.map_dropLast] at h
      obtain ⟨j, hj, hji⟩ := List.mem_map.1 h
      rw [List.map_dropLast]
      exact Fin.ext hji ▸ hj
    rw [harr, Arrivals.feed_none_pieces piece group _ _ (by simpa using hne) hall' hmiss'] at hrun htr
    refine ⟨a', ?_, htr⟩
    rw [hrun, hmsg, ← List.map_dropLast, List.map_map]
    rfl

def fiveBytes : Queued := { payload := { id := 0, data := [1, 2, 3, 4, 5] }, kind := .user .reliableOrdered 0 }

theorem fragments_reassemble_five_bytes :
    0 < fiveBytes.payload.data.length ∧ 0 < 2 ∧ fiveBytes.payload.data.length ≤ 65535 * 2 ∧
    ∃ frags pool', Fragments.split { max := 4 } fiveBytes 7 2 = .ok (frags, pool') ∧
      (frags.length - 1) * 2 < fiveBytes.payload.data.length ∧
      fiveBytes.payload.data.length ≤ frags.length * 2 ∧
      (∀ i (hi : i < frags.length), frags[i].tag = some { group := 7, total := frags.length, index := i }) ∧
      (frags.map Queued.span).flatten = List.range fiveBytes.payload.data.length ∧
      (∀ f ∈ frags, f.data.length ≤ 2) ∧
      (∀ (timeout : Nat) (cs : List (FragmentTag × Bytes × Nat)), (∀ x ∈ cs, x.1.index < x.1.total) →
        ∃ a', ({ timeout } : Assembler).addAll cs =
          .ok ((Arrivals.addAll (fun _ => none) (cs.map fun x => (x.1, x.2.1))).1, a')) ∧
      ∀ (a : Assembler) (fs : List (Fin frags.length × Nat)), a.find? 7 = none →
        (∀ i, i ∈ fs.map Prod.fst) → (∃ i, i ∉ fs.dropLast.map Prod.fst) →
        ∃ a', a.addAll (fs.map fun f => (⟨7, frags.length, f.1⟩, frags[f.1].data, f.2)) =
            .ok (fs.dropLast.map (fun _ => .ok none) ++ [.ok (some fiveBytes.payload.data)], a') ∧
          a'.find? 7 = none :=
  ⟨by decide, by decide, by decide, fragments_reassemble { max := 4 } fiveBytes 7 2 (by decide) (by decide) (by decide)⟩

/-- The assembler keeps no memory of the groups it has completed: a message of one fragment
whose fragment arrives twice is given back twice, since the copy opens its group anew and
completes it at once. -/
theorem single_fragment_twice :
    ((Fragments.split { max := 4 } { fiveBytes with payload.data := [5] } 7 100).map
        fun r => r.1.map fun f => (f.tag, f.data)) = .ok [(some ⟨7, 1, 0⟩, [5])] ∧
    ((({ timeout := 0 } : Assembler).addAll [(⟨7, 1, 0⟩, [5], 0), (⟨7, 1, 0⟩, [5], 0)]).map Prod.fst) =
      .ok [.ok (some [5]), .ok (some [5])] :=
  ⟨rfl, rfl⟩

end ReliableUdp
