import ReliableUdp.Proofs.ResendPass
import ReliableUdp.Proofs.Delivery

/-!
# A sender and a receiver over a lossy network

The send window of one connection and the receive window of its peer, joined by a network that
loses, repeats and reorders each round's messages and acknowledgements.
-/

namespace ReliableUdp

def Kind.remembered : Kind → Bool
  | .user .reliableOrdered ch => decide (ch < 32)
  | .user .reliableUnordered ch => ch == 0
  | _ => false

def Queued.inboundAs (m : Queued) (s : Seq) : Inbound :=
  { kind := m.kind, seq := some s, fragment := m.tag, data := m.data }

def Stored.inbound (s : Stored) : Inbound := s.msg.inboundAs s.seq

def Inbound.onRaw (r : Nat) (xs : List Inbound) : List Inbound := xs.filter (·.kind.toRaw == r)

/-- Every stored number is less than half the space behind the next number of its type. -/
def SendWindow.WithinHalf (w : SendWindow) : Prop :=
  ∀ r < Kind.count, ∀ s ∈ w.storedOf r, 0 < Seq.distance (w.nextSeq.getD r default) s.seq

def SendWindow.withinHalfScan (w : SendWindow) : Bool :=
  w.stored.toList.zipIdx.all fun p =>
    !decide (p.2 < Kind.count) || p.1.all fun s => decide (0 < Seq.distance (w.nextSeq.getD p.2 default) s.seq)

theorem SendWindow.withinHalf_iff_scan (w : SendWindow) : w.WithinHalf ↔ w.withinHalfScan = true := by
  simp only [WithinHalf, withinHalfScan, List.all_eq_true, Bool.or_eq_true, Bool.not_eq_true',
    decide_eq_false_iff_not, decide_eq_true_eq, List.mem_zipIdx_iff_getElem?, storedOf,
    Array.getD_eq_getD_getElem?, Prod.forall]
  constructor
  · intro h l r hl
    by_cases hr : r < Kind.count
    · refine .inr fun s hs => h r hr s ?_
      rw [← Array.getElem?_toList, hl]
      exact hs
    · exact .inl hr
  · intro h r hr s hs
    cases hl : w.stored.toList[r]? with
    | none =>
      rw [← Array.getElem?_toList, hl] at hs
      cases hs
    | some l =>
      rw [← Array.getElem?_toList, hl] at hs
      exact ((h l r hl).resolve_left (not_not.2 hr)) s hs

instance (w : SendWindow) : Decidable w.WithinHalf := decidable_of_iff _ w.withinHalf_iff_scan.symm

inductive Link.Phase where
  | sending
  | arriving
  | acking
  deriving DecidableEq, Repr

/-- The two windows and what is on the wire this round (`up` from the sender, `down` from the
receiver), with the logs a test reads: every message as first sent, everything released, the
stored messages acknowledgements removed and those the sender gave up on. -/
structure Link where
  tx : SendWindow
  rx : ReceiveWindow
  phase : Link.Phase := .sending
  up : List Inbound := []
  down : List (Seq × Nat) := []
  firsts : List Inbound := []
  released : List Inbound := []
  confirmed : List Inbound := []
  lost : List Queued := []

namespace Link

inductive Act where
  | send (m : Queued) (t : Nat)
  | resend (now : Nat) (r : ResendSchedule) (rtt : Nat)
  | flush
  | ship
  | arrive (k now : Nat)
  | turn
  | ackIn (k : Nat)
  | next

/-- One action. The sender sends (a first copy, kept for a resend from `t` on) and resends
while the round is `sending`; `ship` hands its batch to the network, whose copies `arrive` by
their place in the batch; `turn` loses the rest and hands the receiver's acknowledgements over,
whose copies come in by place (`ackIn`) until `next` loses the rest. The receiver may `flush`
what it owes at any time. -/
def act : Act → Link → Option Link
  | .send m t, l =>
    if l.phase = .sending ∧ m.kind.remembered = true then
      match l.tx.isFull m.kind, l.tx.assign m.kind with
      | .ok false, .ok (some s, w) =>
        some { l with
          tx := w.keep m (some s) t
          up := l.up ++ [m.inboundAs s]
          firsts := l.firsts ++ [m.inboundAs s] }
      | _, _ => none
    else none
  | .resend now r rtt, l =>
    if l.phase = .sending then
      match l.tx.resendDue now r rtt with
      | .ok (pass, w) =>
        some { l with
          tx := w
          up := l.up ++ pass.resent.map (fun p => p.1.inboundAs p.2)
          lost := l.lost ++ pass.dropped }
      | .error _ => none
    else none
  | .flush, l => some { l with rx := l.rx.takeAcks.2, down := l.down ++ l.rx.takeAcks.1 }
  | .ship, l => if l.phase = .sending then some { l with phase := .arriving } else none
  | .arrive k now, l =>
    if l.phase = .arriving then
      match l.up[k]? with
      | some m =>
        match l.rx.receive m now with
        | .ok (_, out, w) => some { l with rx := w, released := l.released ++ out }
        | .error _ => none
      | none => none
    else none
  | .turn, l => if l.phase = .arriving then some { l with phase := .acking, up := [] } else none
  | .ackIn k, l =>
    if l.phase = .acking then
      match l.down[k]? with
      | some (s, r) =>
        some { l with
          tx := (l.tx.ack s r).2
          confirmed := l.confirmed ++ ((l.tx.ack s r).1.map (·.inboundAs s)).toList }
      | none => none
    else none
  | .next, l => if l.phase = .acking then some { l with phase := .sending, down := [] } else none

def run : List Act → Link → Option Link
  | [], l => some l
  | a :: as, l => (act a l).bind (run as)

def trace : List Act → Link → List Link
  | [], l => [l]
  | a :: as, l => l :: ((act a l).map (trace as)).getD []

def fresh (n : Nat) : Link := { tx := { window := n }, rx := {} }

def sentOn (l : Link) (r : Nat) : List Inbound := Inbound.onRaw r l.firsts

def releasedOn (l : Link) (r : Nat) : List Inbound := Inbound.onRaw r l.released

def confirmedOn (l : Link) (r : Nat) : List Inbound := Inbound.onRaw r l.confirmed

theorem run_cons {a : Act} {as : List Act} {l l' : Link} (h : run (a :: as) l = some l') :
    ∃ l₁, act a l = some l₁ ∧ run as l₁ = some l' := by
  simp only [run, Option.bind_eq_some_iff] at h
  exact h

theorem trace_cons_of_act {a : Act} {as : List Act} {l l₁ : Link} (h : act a l = some l₁) :
    trace (a :: as) l = l :: trace as l₁ := by
  simp [trace, h]

/-! ## What each action does -/

section Inversion

variable {l l' : Link}

theorem act_send {m : Queued} {t : Nat} (h : act (.send m t) l = some l') :
    l.phase = .sending ∧ m.kind.remembered = true ∧ ∃ s w, l.tx.isFull m.kind = .ok false ∧
      l.tx.assign m.kind = .ok (some s, w) ∧
      l' = { l with
        tx := w.keep m (some s) t
        up := l.up ++ [m.inboundAs s]
        firsts := l.firsts ++ [m.inboundAs s] } := by
  simp only [act] at h
  split at h
  · rename_i hc
    split at h
    · rename_i s w hf ha
      exact ⟨hc.1, hc.2, s, w, hf, ha, (Option.some.inj h).symm⟩
    · cases h
  · cases h

theorem act_resend {now rtt : Nat} {r : ResendSchedule} (h : act (.resend now r rtt) l = some l') :
    l.phase = .sending ∧ ∃ pass w, l.tx.resendDue now r rtt = .ok (pass, w) ∧
      l' = { l with
        tx := w
        up := l.up ++ pass.resent.map (fun p => p.1.inboundAs p.2)
        lost := l.lost ++ pass.dropped } := by
  simp only [act] at h
  split at h
  · rename_i hc
    split at h
    · rename_i pass w hr
      exact ⟨hc, pass, w, hr, (Option.some.inj h).symm⟩
    · cases h
  · cases h

theorem act_flush (h : act .flush l = some l') :
    l' = { l with rx := l.rx.takeAcks.2, down := l.down ++ l.rx.takeAcks.1 } :=
  (Option.some.inj h).symm

theorem act_ship (h : act .ship l = some l') : l.phase = .sending ∧ l' = { l with phase := .arriving } := by
  simp only [act] at h
  split at h
  · exact ⟨‹_›, (Option.some.inj h).symm⟩
  · cases h

theorem act_arrive {k now : Nat} (h : act (.arrive k now) l = some l') :
    l.phase = .arriving ∧ ∃ m v out w, l.up[k]? = some m ∧ l.rx.receive m now = .ok (v, out, w) ∧
      l' = { l with rx := w, released := l.released ++ out } := by
  simp only [act] at h
  split at h
  · rename_i hc
    split at h
    · rename_i m hm
      split at h
      · rename_i v out w hr
        exact ⟨hc, m, v, out, w, hm, hr, (Option.some.inj h).symm⟩
      · cases h
    · cases h
  · cases h

theorem act_turn (h : act .turn l = some l') :
    l.phase = .arriving ∧ l' = { l with phase := .acking, up := [] } := by
  simp only [act] at h
  split at h
  · exact ⟨‹_›, (Option.some.inj h).symm⟩
  · cases h

theorem act_ackIn {k : Nat} (h : act (.ackIn k) l = some l') :
    l.phase = .acking ∧ ∃ s r, l.down[k]? = some (s, r) ∧
      l' = { l with
        tx := (l.tx.ack s r).2
        confirmed := l.confirmed ++ ((l.tx.ack s r).1.map (·.inboundAs s)).toList } := by
  simp only [act] at h
  split at h
  · rename_i hc
    split at h
    · rename_i s r hd
      exact ⟨hc, s, r, hd, (Option.some.inj h).symm⟩
    · cases h
  · cases h

theorem act_next (h : act .next l = some l') :
    l.phase = .acking ∧ l' = { l with phase := .sending, down := [] } := by
  simp only [act] at h
  split at h
  · exact ⟨‹_›, (Option.some.inj h).symm⟩
  · cases h

theorem lost_prefix_act {a : Act} (h : act a l = some l') : l.lost <+: l'.lost := by
  cases a with
  | resend now r rtt =>
    obtain ⟨-, pass, w, -, rfl⟩ := act_resend h
    exact List.prefix_append _ _
  | send m t =>
    obtain ⟨-, -, s, w, -, -, rfl⟩ := act_send h
    exact List.prefix_refl _
  | arrive k now =>
    obtain ⟨-, m, v, out, w, -, -, rfl⟩ := act_arrive h
    exact List.prefix_refl _
  | ackIn k =>
    obtain ⟨-, s, r, -, rfl⟩ := act_ackIn h
    exact List.prefix_refl _
  | flush =>
    obtain rfl := act_flush h
    exact List.prefix_refl _
  | ship =>
    obtain ⟨-, rfl⟩ := act_ship h
    exact List.prefix_refl _
  | turn =>
    obtain ⟨-, rfl⟩ := act_turn h
    exact List.prefix_refl _
  | next =>
    obtain ⟨-, rfl⟩ := act_next h
    exact List.prefix_refl _

end Inversion

end Link
end ReliableUdp
