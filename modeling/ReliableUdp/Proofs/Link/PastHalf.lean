import ReliableUdp.Proofs.Link.Release

/-!
# A link past half the space

A sender that keeps index 0 while it gives out half the space beyond it leaves `WithinHalf`,
and the receiver, still expecting 0, misreads the later numbers.
-/

namespace ReliableUdp
namespace Link

theorem run_append (xs ys : List Act) (l : Link) : run (xs ++ ys) l = (run xs l).bind (run ys) := by
  induction xs generalizing l with
  | nil => rfl
  | cons a xs ih =>
    simp only [List.cons_append, run, Option.bind_assoc]
    cases act a l with
    | none => rfl
    | some l' => exact ih l'

def firstCopies (k : Kind) (n : Nat) : List Inbound :=
  (List.range' 0 n).map fun i => (message k i).inboundAs (Seq.ofNat i)

theorem run_sends_fresh {k : Kind} (hk : k.remembered = true) {n w : Nat} (hn : n ≤ w) :
    ∃ tx g, run ((List.range' 0 n).map fun i => .send (message k i) 0) (fresh w) =
        some { tx, rx := {}, up := firstCopies k n, firsts := firstCopies k n } ∧
      Logged { tx, rx := {}, firsts := firstCopies k n } g ∧
      g.assigned k.toRaw = n ∧ g.index k.toRaw = List.range' 0 n := by
  obtain ⟨⟨tx, rx, phase, up, down, firsts, released, confirmed, lost⟩, g, hrun, hlog, hframe, hup,
    hfirsts, hA, hI⟩ := (Logged.fresh w).run_sends rfl hk (f := message k) (fun _ => rfl) (t := 0)
      (a := 0) (n := n) rfl (by simpa [fresh] using hn)
  simp only [fresh, Link.mk.injEq] at hframe hup hfirsts
  obtain ⟨-, rfl, rfl, -, rfl, -, rfl, rfl, rfl⟩ := hframe
  subst hup hfirsts
  exact ⟨tx, g, hrun, hlog.frame rfl rfl, by simpa using hA, by simpa using hI⟩

theorem onRaw_firstCopies (k : Kind) (n : Nat) : Inbound.onRaw k.toRaw (firstCopies k n) = firstCopies k n :=
  List.filter_eq_self.2 fun x hx => by
    obtain ⟨i, -, rfl⟩ := List.mem_map.1 hx
    simp [message]

theorem getElem?_firstCopies {k : Kind} {n i : Nat} (h : i < n) :
    (firstCopies k n)[i]? = some ((message k i).inboundAs (Seq.ofNat i)) := by
  simp [firstCopies, h]

def halfAhead : List Act :=
  (List.range' 0 513).map (fun i => .send (message (.user .reliableUnordered 0) i) 0) ++
    [.ship, .arrive 512 0, .turn, .flush, .ackIn 0]

set_option maxRecDepth 4000 in
/-- The unordered kind acknowledges index 512 without releasing it: the receiver, expecting 0,
reads its number as half the space behind. The sender takes it out of its store, and keeps
index 0 while its next number is 513, more than half the space ahead of it. -/
theorem unordered_ack_without_release_half_ahead :
    ∃ l, run halfAhead (fresh 1024) = some l ∧ l.lost = [] ∧ ¬ l.tx.WithinHalf ∧
      l.releasedOn unorderedRaw = [] ∧
      l.confirmedOn unorderedRaw = [(message (.user .reliableUnordered 0) 512).inboundAs (Seq.ofNat 512)] := by
  obtain ⟨tx, g, hrun, hlog, hA, hI⟩ :=
    run_sends_fresh (k := .user .reliableUnordered 0) rfl (n := 513) (w := 1024) (by decide)
  obtain ⟨rx, hrecv, hacks⟩ : ∃ rx, ({} : ReceiveWindow).receive
      ((message (.user .reliableUnordered 0) 512).inboundAs (Seq.ofNat 512)) 0 = .ok (.duplicate, [], rx) ∧
      rx.acks = [(Seq.ofNat 512, unorderedRaw)] := ⟨_, rfl, rfl⟩
  -- the acknowledgement names index 512 alone among the stored ones
  have huniq : ∀ i ∈ g.index unorderedRaw, Seq.ofNat i = Seq.ofNat 512 ↔ i = 512 := by
    intro i hi
    rw [show unorderedRaw = (Kind.user .reliableUnordered 0).toRaw from rfl, hI, List.mem_range'_1] at hi
    exact Seq.ofNat_eq_ofNat_iff (by simp only [seqSpace]; omega) (by simp only [seqSpace]; omega)
  obtain ⟨hlog', hconf⟩ := hlog.ackIn (by decide) huniq
  rw [halfAhead, run_append, hrun]
  simp [run, act, getElem?_firstCopies, hrecv, ReceiveWindow.takeAcks, hacks]
  have hu : unorderedRaw = (Kind.user .reliableUnordered 0).toRaw := rfl
  have h512 : 512 ∈ g.index unorderedRaw := by
    rw [hu, hI]
    exact List.mem_range'_1.2 ⟨Nat.zero_le _, by decide⟩
  refine ⟨hlog'.numbered.not_withinHalf (r := unorderedRaw) (i := 0) ?_ ?_, rfl, ?_⟩
  · -- index 0 stays stored, more than half the space behind 513
    show 0 ∈ Function.update g.index unorderedRaw ((g.index unorderedRaw).erase 512) unorderedRaw
    rw [Function.update_self, hu, hI]
    exact (List.mem_erase_of_ne (by decide)).2 (List.mem_range'_1.2 ⟨Nat.le_refl _, by decide⟩)
  · show Seq.distance (Seq.ofNat (g.assigned unorderedRaw)) (Seq.ofNat 0) ≤ 0
    rw [hu, hA]
    decide
  · show Inbound.onRaw unorderedRaw (Option.map (fun x => x.inboundAs (Seq.ofNat 512))
      (tx.ack (Seq.ofNat 512) unorderedRaw).1).toList = _
    rw [hconf, if_pos h512, sentOn, hu, onRaw_firstCopies, getElem?_firstCopies (by decide)]
    simp [Inbound.onRaw, message]

def wholeSpaceAhead : List Act :=
  (List.range' 0 1025).map (fun i => .send (message (.user .reliableOrdered 0) i) 0) ++
    [.ship, .arrive 1 0, .arrive 1024 0]

set_option maxRecDepth 4000 in
/-- An ordered channel releases index 1024 ahead of index 0, which never arrived: the receiver,
expecting 0, takes the number of 1024 for it and releases the held index 1 after it. The
sender's next number, 1025, is then half the space ahead of its stored index 513. -/
theorem ordered_release_ahead_of_missing :
    ∃ l, run wholeSpaceAhead (fresh 2048) = some l ∧ l.lost = [] ∧ ¬ l.tx.WithinHalf ∧
      l.releasedOn (orderedRaw 0) = [(message (.user .reliableOrdered 0) 1024).inboundAs (Seq.ofNat 1024),
        (message (.user .reliableOrdered 0) 1).inboundAs (Seq.ofNat 1)] ∧
      ¬ ∃ k, l.releasedOn (orderedRaw 0) = (l.sentOn (orderedRaw 0)).take k := by
  obtain ⟨tx, g, hrun, hlog, hA, hI⟩ :=
    run_sends_fresh (k := .user .reliableOrdered 0) rfl (n := 1025) (w := 2048) (by decide)
  obtain ⟨rx₁, rx₂, hrecv₁, hrecv₂⟩ : ∃ rx₁ rx₂,
      ({} : ReceiveWindow).receive ((message (.user .reliableOrdered 0) 1).inboundAs (Seq.ofNat 1)) 0 =
        .ok (.withheld, [], rx₁) ∧
      rx₁.receive ((message (.user .reliableOrdered 0) 1024).inboundAs (Seq.ofNat 1024)) 0 =
        .ok (.accepted, [(message (.user .reliableOrdered 0) 1024).inboundAs (Seq.ofNat 1024),
          (message (.user .reliableOrdered 0) 1).inboundAs (Seq.ofNat 1)], rx₂) := ⟨_, _, rfl, rfl⟩
  rw [wholeSpaceAhead, run_append, hrun]
  simp [run, act, getElem?_firstCopies, hrecv₁, hrecv₂]
  have ho : orderedRaw 0 = (Kind.user .reliableOrdered 0).toRaw := rfl
  refine ⟨hlog.numbered.not_withinHalf (r := orderedRaw 0) (i := 513) ?_ ?_, rfl, fun k hk => ?_⟩
  · rw [ho, hI]
    exact List.mem_range'_1.2 ⟨by decide, by decide⟩
  · rw [ho, hA]
    decide
  · -- every prefix of what was sent starts with index 0, which is not what came out first
    rw [sentOn, ho, onRaw_firstCopies] at hk
    cases k with
    | zero => cases hk
    | succ k =>
      have h0 := congrArg (·[0]?) hk
      simp only [List.getElem?_take, if_pos (Nat.succ_pos k), getElem?_firstCopies (by decide : 0 < 1025)] at h0
      have hd := congrArg Inbound.data (Option.some.inj h0)
      simp [Queued.inboundAs, message, Queued.data] at hd

end Link
end ReliableUdp
