import ReliableUdp.Net.Simulation

/-!
# Delayed datagrams leave in due order

The queue of delayed datagrams stays sorted by due time, ties in the order delayed
(`Arranged`), so `takeDue` returns exactly the datagrams due and every delayed one is
returned once or still waiting.
-/

namespace ReliableUdp
namespace Simulation
namespace Delayed

abbrev Entry := Nat × Endpoint × Bytes

/-- `q` holds the entries of `p` by due time, and those due at one time in their order in `p`. -/
structure Arranged (p q : List Entry) : Prop where
  sorted : q.Pairwise (·.1 ≤ ·.1)
  stable : ∀ t, q.filter (·.1 = t) = p.filter (·.1 = t)

theorem filter_due_filter (l : List Entry) (f : Nat → Bool) (t : Nat) :
    (l.filter (fun e => f e.1)).filter (·.1 = t) = if f t then l.filter (·.1 = t) else [] := by
  rw [List.filter_filter]
  split
  · rename_i ht
    exact List.filter_congr fun e _ => by by_cases he : e.1 = t <;> simp [he, ht]
  · rename_i ht
    exact List.filter_eq_nil_iff.2 fun e _ => by by_cases he : e.1 = t <;> simp [he, ht]

theorem later_behind {e : Entry} {q : List Entry} (hle : ∀ b ∈ q, e.1 ≤ b.1) {now : Nat}
    (he : ¬ e.1 ≤ now) : ∀ b ∈ q, now < b.1 := fun b hb =>
  Nat.lt_of_lt_of_le (Nat.lt_of_not_le he) (hle b hb)

theorem takeWhile_due {q : List Entry} (hq : q.Pairwise (·.1 ≤ ·.1)) (now : Nat) :
    q.takeWhile (·.1 ≤ now) = q.filter (·.1 ≤ now) := by
  induction q with
  | nil => rfl
  | cons e q ih =>
    obtain ⟨hle, hq⟩ := List.pairwise_cons.1 hq
    by_cases he : e.1 ≤ now
    · simp [he, ih hq]
    · have hlater : q.filter (·.1 ≤ now) = [] := List.filter_eq_nil_iff.2 fun b hb => by
        simpa using later_behind hle he b hb
      simp [he, hlater]

theorem dropWhile_due {q : List Entry} (hq : q.Pairwise (·.1 ≤ ·.1)) (now : Nat) :
    q.dropWhile (·.1 ≤ now) = q.filter (now < ·.1) := by
  induction q with
  | nil => rfl
  | cons e q ih =>
    obtain ⟨hle, hq⟩ := List.pairwise_cons.1 hq
    by_cases he : e.1 ≤ now
    · simp [he, ih hq, Nat.not_lt.2 he]
    · have hlater : q.filter (now < ·.1) = q := List.filter_eq_self.2 fun b hb => by
        simpa using later_behind hle he b hb
      simp [he, hlater, Nat.lt_of_not_le he]

theorem sorted_append {a b : List Entry} (ha : a.Pairwise (·.1 ≤ ·.1)) (hb : b.Pairwise (·.1 ≤ ·.1))
    {t : Nat} (hat : ∀ x ∈ a, x.1 ≤ t) (hbt : ∀ y ∈ b, t ≤ y.1) : (a ++ b).Pairwise (·.1 ≤ ·.1) :=
  List.pairwise_append.2 ⟨ha, hb, fun x hx y hy => Nat.le_trans (hat x hx) (hbt y hy)⟩

theorem delay_queue {d : Delayed} (hq : d.queue.Pairwise (·.1 ≤ ·.1)) (due : Nat) (dest : Endpoint)
    (data : Bytes) :
    (d.delay due dest data).queue =
      d.queue.filter (·.1 ≤ due) ++ [(due, dest, data)] ++ d.queue.filter (due < ·.1) := by
  simp only [delay, takeWhile_due hq, dropWhile_due hq]

theorem takeDue_eq {d : Delayed} (hq : d.queue.Pairwise (·.1 ≤ ·.1)) (now : Nat) :
    d.takeDue now = ((d.queue.filter (·.1 ≤ now)).map (·.2), ⟨d.queue.filter (now < ·.1)⟩) := by
  simp only [takeDue, takeWhile_due hq, dropWhile_due hq]

namespace Arranged

variable {p q : List Entry}

theorem nil : Arranged [] [] := ⟨.nil, fun _ => rfl⟩

theorem perm (h : Arranged p q) : q.Perm p := by
  rw [List.perm_iff_count]
  intro e
  have hq := List.count_filter (l := q) (p := (·.1 = e.1)) (a := e) (by simp)
  have hp := List.count_filter (l := p) (p := (·.1 = e.1)) (a := e) (by simp)
  rw [← hq, ← hp, h.stable]

theorem filter (h : Arranged p q) (f : Nat → Bool) :
    Arranged (p.filter (fun e => f e.1)) (q.filter (fun e => f e.1)) where
  sorted := h.sorted.filter _
  stable t := by rw [filter_due_filter, filter_due_filter, h.stable]

theorem delay {d : Delayed} (h : Arranged p d.queue) (due : Nat) (dest : Endpoint) (data : Bytes) :
    Arranged (p ++ [(due, dest, data)]) (d.delay due dest data).queue := by
  rw [delay_queue h.sorted]
  constructor
  · -- the earlier entries are due by `due`, the new one at it, the later ones after it
    have hfront : ∀ a ∈ d.queue.filter (·.1 ≤ due), a.1 ≤ due := fun a ha => by
      simpa using (List.mem_filter.1 ha).2
    have hback : ∀ b ∈ d.queue.filter (due < ·.1), due ≤ b.1 := fun b hb =>
      Nat.le_of_lt (by simpa using (List.mem_filter.1 hb).2)
    have hnew : ∀ a ∈ [(due, dest, data)], a.1 = due := by simp
    refine sorted_append (t := due)
      (sorted_append (h.sorted.filter _) (List.pairwise_singleton _ _) hfront
        fun b hb => Nat.le_of_eq (hnew b hb).symm)
      (h.sorted.filter _) (fun a ha => ?_) hback
    rcases List.mem_append.1 ha with ha | ha
    · exact hfront a ha
    · exact Nat.le_of_eq (hnew a ha)
  · intro t
    rw [List.filter_append, List.filter_append, List.filter_append,
      filter_due_filter d.queue (· ≤ due), filter_due_filter d.queue (due < ·), h.stable]
    by_cases ht : t ≤ due
    · have hlater : ¬ due < t := Nat.not_lt.2 ht
      simp [ht, hlater]
    · have hne : due ≠ t := by omega
      simp [ht, hne]

end Arranged

inductive Call where
  | delay (due : Nat) (dest : Endpoint) (data : Bytes)
  | takeDue (now : Nat)
  | takeAll

namespace Call

def run : Call → Delayed → List (Endpoint × Bytes) × Delayed
  | .delay due dest data, d => ([], d.delay due dest data)
  | .takeDue now, d => d.takeDue now
  | .takeAll, d => d.takeAll

def delayed : Call → List Entry
  | .delay due dest data => [(due, dest, data)]
  | .takeDue _ | .takeAll => []

def waiting : Call → List Entry → List Entry
  | .delay due dest data, p => p ++ [(due, dest, data)]
  | .takeDue now, p => p.filter (now < ·.1)
  | .takeAll, _ => []

def runAll : List Call → Delayed → List (Endpoint × Bytes) × Delayed
  | [], d => ([], d)
  | c :: cs, d =>
    let (out, d₁) := c.run d
    let (rest, d₂) := runAll cs d₁
    (out ++ rest, d₂)

def waitingAfter : List Call → List Entry → List Entry
  | [], p => p
  | c :: cs, p => waitingAfter cs (c.waiting p)

theorem run_arranged (c : Call) {p : List Entry} {d : Delayed} (h : Arranged p d.queue) :
    Arranged (c.waiting p) (c.run d).2.queue := by
  cases c with
  | delay due dest data => exact h.delay due dest data
  | takeDue now =>
    rw [run, takeDue_eq h.sorted]
    exact h.filter (now < ·)
  | takeAll => exact Arranged.nil

theorem run_conserves (c : Call) (d : Delayed) :
    ((c.run d).1 ++ (c.run d).2.queue.map (·.2)).Perm ((d.queue ++ c.delayed).map (·.2)) := by
  cases c with
  | delay due dest data =>
    -- the queue is its front, the new entry, then its back
    have hsplit := List.takeWhile_append_dropWhile (p := (·.1 ≤ due)) (l := d.queue)
    simp only [run, Delayed.delay, delayed, List.nil_append]
    refine List.Perm.map _ ?_
    conv => rhs; rw [← hsplit]
    rw [List.append_assoc, List.append_assoc]
    exact List.Perm.append_left _ List.perm_append_comm
  | takeDue now =>
    simp only [run, Delayed.takeDue, delayed, List.append_nil, ← List.map_append,
      List.takeWhile_append_dropWhile, List.Perm.refl]
  | takeAll => simp [run, Delayed.takeAll, delayed]

theorem runAll_arranged (cs : List Call) {p : List Entry} {d : Delayed} (h : Arranged p d.queue) :
    Arranged (waitingAfter cs p) (runAll cs d).2.queue := by
  induction cs generalizing p d with
  | nil => exact h
  | cons c cs ih => exact ih (c.run_arranged h)

theorem runAll_conserves (cs : List Call) (d : Delayed) :
    ((runAll cs d).1 ++ (runAll cs d).2.queue.map (·.2)).Perm
      ((d.queue ++ cs.flatMap delayed).map (·.2)) := by
  induction cs generalizing d with
  | nil => simp [runAll]
  | cons c cs ih =>
    -- what the rest returns and keeps is what the first call kept, and what the rest delays
    have hrest := ih (c.run d).2
    have hfirst := (c.run_conserves d).append_right ((cs.flatMap delayed).map (·.2))
    simp only [runAll, List.append_assoc]
    calc List.Perm ((c.run d).1 ++ ((runAll cs (c.run d).2).1 ++
            (runAll cs (c.run d).2).2.queue.map (·.2)))
          ((c.run d).1 ++ ((c.run d).2.queue ++ cs.flatMap delayed).map (·.2)) :=
          hrest.append_left _
        _ = (c.run d).1 ++ (c.run d).2.queue.map (·.2) ++ (cs.flatMap delayed).map (·.2) := by
          simp
        List.Perm _ ((d.queue ++ c.delayed).map (·.2) ++ (cs.flatMap delayed).map (·.2)) := hfirst
        _ = (d.queue ++ List.flatMap delayed (c :: cs)).map (·.2) := by simp

end Call

/-- After any calls from the empty queue: the queue holds the datagrams delayed and not taken
yet by due time, those due at one time in the order they were delayed; `takeDue now` removes
and returns exactly those due by `now`, in that order, and `takeAll` all of them; and what the
calls returned, with what still waits, is every delayed datagram once. -/
theorem delayed_leave_in_due_order (cs : List Call) :
    Arranged (Call.waitingAfter cs []) (Call.runAll cs {}).2.queue ∧
    (∀ now, (Call.runAll cs {}).2.takeDue now =
        (((Call.runAll cs {}).2.queue.filter (·.1 ≤ now)).map (·.2),
          ⟨(Call.runAll cs {}).2.queue.filter (now < ·.1)⟩) ∧
      Arranged ((Call.waitingAfter cs []).filter (·.1 ≤ now))
        ((Call.runAll cs {}).2.queue.filter (·.1 ≤ now))) ∧
    (Call.runAll cs {}).2.takeAll = ((Call.runAll cs {}).2.queue.map (·.2), {}) ∧
    ((Call.runAll cs {}).1 ++ (Call.runAll cs {}).2.queue.map (·.2)).Perm
      ((cs.flatMap Call.delayed).map (·.2)) := by
  have h := Call.runAll_arranged cs (p := []) (d := {}) Arranged.nil
  refine ⟨h, fun now => ⟨takeDue_eq h.sorted now, h.filter (· ≤ now)⟩, rfl, ?_⟩
  simpa using Call.runAll_conserves cs {}

example :
    let dest := Endpoint.localhost 9000
    let r := Call.runAll [.delay 20 dest [2], .delay 10 dest [1], .delay 30 dest [3], .takeDue 0,
      .takeDue 20] {}
    r.1 = [(dest, [1]), (dest, [2])] ∧ r.2.queue = [(30, dest, [3])] := by
  decide

end Delayed
end Simulation
end ReliableUdp
