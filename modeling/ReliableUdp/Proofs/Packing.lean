import Mathlib.Data.List.Chain
import ReliableUdp.Proofs.ReadBack

/-!
# Packing messages into datagrams

What a writer holds is a `Packing`: the messages since the last take in groups, one per
datagram. Every write and take of well-formed messages that fit succeeds, and the datagrams
taken read back as the messages written (`Writer.session_reads_back`).
-/

namespace ReliableUdp

theorem Header.length_encodeLen (len : Nat) :
    (encodeLen len).length = if len < 0x80 then 1 else 2 := by
  unfold encodeLen
  split <;> rfl

theorem Header.length_encode (h : Header) : h.encode.length = h.encodedLen := by
  obtain ⟨k, c, s, l, f⟩ := h
  cases c <;> cases s <;> cases f <;>
    simp [encode, encodedLen, length_encodeLen, Wire.putU16, FragmentTag.encode] <;> omega

namespace Datagram

open Writer (encoding)

def messageLen (m : Header × Bytes) : Nat := m.1.encodedLen + m.2.length

theorem length_encoding (ms : List (Header × Bytes)) :
    (encoding ms).length = (ms.map messageLen).sum := by
  induction ms with
  | nil => rfl
  | cons m ms ih =>
    simp only [encoding, List.flatMap_cons, List.length_append, Header.length_encode,
      List.map_cons, List.sum_cons, messageLen] at ih ⊢
    rw [ih]

theorem length_le_length_encoding (ms : List (Header × Bytes)) : ms.length ≤ (encoding ms).length := by
  induction ms with
  | nil => exact Nat.le_refl 0
  | cons m ms ih =>
    have h := List.length_pos_iff.2 (Header.encode_ne_nil m.1)
    simp only [encoding, List.flatMap_cons, List.length_append, List.length_cons] at ih ⊢
    omega

/-! ## Reading back -/

theorem readMessage_encode {m : Header × Bytes} (hm : MessageWellFormed m) (rest : Bytes) :
    readMessage (m.1.encode ++ (m.2 ++ rest)) = .ok (m, rest) := by
  obtain ⟨hh, hlen⟩ := hm
  have hnot : ¬ m.2.length < m.1.payloadLen := by omega
  simp only [readMessage, Header.decode_encode hh, bind, Except.bind, List.length_append, hlen,
    gt_iff_lt, List.take_left', List.drop_left']
  simp [pure, Except.pure, Nat.not_lt.2 (Nat.le_add_right _ _)]

theorem read_go_encoding {ms : List (Header × Bytes)} (hw : ∀ m ∈ ms, MessageWellFormed m) :
    ∀ {n : Nat}, ms.length ≤ n → read.go n (encoding ms) = ms.map .ok := by
  induction ms with
  | nil =>
    intro n _
    cases n <;> rfl
  | cons m ms ih =>
    intro n hn
    obtain ⟨hm, hms⟩ := List.forall_mem_cons.1 hw
    obtain ⟨k, rfl⟩ : ∃ k, n = k + 1 := ⟨n - 1, by simp at hn; omega⟩
    have hcons : encoding (m :: ms) = m.1.encode ++ (m.2 ++ encoding ms) := by
      simp [encoding]
    -- the encoding starts with the header's type byte, so one message is read
    obtain ⟨b, bs, hb⟩ := List.exists_cons_of_ne_nil (Header.encode_ne_nil m.1)
    have hstep : read.go (k + 1) (m.1.encode ++ (m.2 ++ encoding ms)) =
        .ok m :: read.go k (encoding ms) := by
      rw [hb, List.cons_append, read.go, ← List.cons_append, ← hb, readMessage_encode hm]
      exact List.cons_ne_nil _ _
    rw [hcons, hstep]
    simp only [ih hms (by simp at hn; omega), List.map_cons]

theorem read_encoding {ms : List (Header × Bytes)} (hw : ∀ m ∈ ms, MessageWellFormed m) :
    read (encoding ms) = ms.map .ok :=
  read_go_encoding hw (length_le_length_encoding ms)

/-! ## Packings -/

def Overflows (mtu : Nat) (g g' : List (Header × Bytes)) : Prop :=
  ∀ m ∈ g'.head?, mtu < (encoding g).length + messageLen m

/-- Messages in groups, one group per datagram of at most `mtu` bytes: each group holds at least
one well-formed message, and each was closed because the first message of the next did not fit. -/
structure Packing (mtu : Nat) (L : List (List (Header × Bytes))) : Prop where
  nonempty : ∀ g ∈ L, g ≠ []
  wellFormed : ∀ g ∈ L, ∀ m ∈ g, MessageWellFormed m
  fits : ∀ g ∈ L, (encoding g).length ≤ mtu
  closed : L.IsChain (Overflows mtu)

namespace Packing

variable {mtu : Nat} {L : List (List (Header × Bytes))} {g : List (Header × Bytes)}
  {m : Header × Bytes}

theorem nil (mtu : Nat) : Packing mtu [] :=
  ⟨by simp, by simp, by simp, .nil⟩

theorem push (hp : Packing mtu L) (hm : MessageWellFormed m) (hfit : messageLen m ≤ mtu)
    (hover : ∀ g ∈ L.getLast?, mtu < (encoding g).length + messageLen m) :
    Packing mtu (L ++ [[m]]) := by
  refine ⟨?_, ?_, ?_, ?_⟩
  · intro g hg
    rcases List.mem_append.1 hg with hg | hg
    · exact hp.nonempty g hg
    · simp_all
  · intro g hg m' hm'
    rcases List.mem_append.1 hg with hg | hg
    · exact hp.wellFormed g hg m' hm'
    · simp_all
  · intro g hg
    rcases List.mem_append.1 hg with hg | hg
    · exact hp.fits g hg
    · simp_all [length_encoding]
  · refine hp.closed.append (List.isChain_singleton _) fun g hg m' hm' => ?_
    simp only [List.head?_cons, Option.mem_def, Option.some.injEq] at hm'
    subst hm'
    intro m'' hm''
    simp only [List.head?_cons, Option.mem_def, Option.some.injEq] at hm''
    subst hm''
    exact hover g hg

theorem extend {L₀ : List (List (Header × Bytes))} (hp : Packing mtu (L₀ ++ [g]))
    (hm : MessageWellFormed m) (hfit : (encoding g).length + messageLen m ≤ mtu) :
    Packing mtu (L₀ ++ [g ++ [m]]) := by
  have hg : g ≠ [] := hp.nonempty g (by simp)
  obtain ⟨h₀, -, hlast⟩ := List.isChain_append.1 hp.closed
  refine ⟨?_, ?_, ?_, ?_⟩
  · intro g' hg'
    rcases List.mem_append.1 hg' with hg' | hg'
    · exact hp.nonempty g' (by simp [hg'])
    · simp_all
  · intro g' hg' m' hm'
    rcases List.mem_append.1 hg' with hg' | hg'
    · exact hp.wellFormed g' (by simp [hg']) m' hm'
    · simp only [List.mem_singleton] at hg'
      subst hg'
      rcases List.mem_append.1 hm' with hm' | hm'
      · exact hp.wellFormed g (by simp) m' hm'
      · simp_all
  · intro g' hg'
    rcases List.mem_append.1 hg' with hg' | hg'
    · exact hp.fits g' (by simp [hg'])
    · simp only [List.mem_singleton] at hg'
      subst hg'
      simpa [length_encoding] using hfit
  · -- the last group keeps its first message
    refine h₀.append (List.isChain_singleton _) fun x hx y hy => ?_
    simp only [List.head?_cons, Option.mem_def, Option.some.injEq] at hy
    subst hy
    intro m' hm'
    rw [List.head?_append_of_ne_nil _ hg] at hm'
    exact hlast x hx g (by simp) m' hm'

theorem read {P : List (List (Header × Bytes))} (hP : Packing mtu P) :
    (P.map encoding).flatMap Datagram.read = P.flatten.map .ok := by
  induction P with
  | nil => rfl
  | cons g P ih =>
    have hP' : Packing mtu P :=
      ⟨fun g' hg' => hP.nonempty g' (by simp [hg']), fun g' hg' => hP.wellFormed g' (by simp [hg']),
        fun g' hg' => hP.fits g' (by simp [hg']), (List.isChain_cons.1 hP.closed).2⟩
    simp only [List.map_cons, List.flatMap_cons, List.flatten_cons, List.map_append,
      read_encoding (hP.wellFormed g (by simp)), ih hP']

theorem closed_datagrams {P : List (List (Header × Bytes))} (hP : Packing mtu P) :
    (P.map encoding).IsChain fun d d' =>
      ∃ m ms, Datagram.read d' = .ok m :: ms ∧ mtu < d.length + messageLen m := by
  rw [List.isChain_map]
  refine hP.closed.imp_of_mem_imp fun {g g'} _ hg' hover => ?_
  obtain ⟨m, ms, rfl⟩ := List.exists_cons_of_ne_nil (hP.nonempty g' hg')
  exact ⟨m, ms.map .ok, by rw [read_encoding (hP.wellFormed _ hg')]; rfl, hover m rfl⟩

theorem read_takes {Ps : List (List (List (Header × Bytes)))} (hPs : ∀ P ∈ Ps, Packing mtu P) :
    (Ps.map (·.map encoding)).flatten.flatMap Datagram.read = (Ps.map List.flatten).flatten.map .ok := by
  induction Ps with
  | nil => rfl
  | cons P Ps ih =>
    simp only [List.map_cons, List.flatten_cons, List.flatMap_append, List.map_append,
      (hPs P (by simp)).read, ih fun P' h => hPs P' (by simp [h])]

end Packing

/-! ## The writer -/

namespace Writer

variable {mtu : Nat} {w : Writer} {L : List (List (Header × Bytes))}

/-- The writer's datagrams, the one being filled last, are the encodings of the packing `L`. -/
structure Holds (mtu : Nat) (w : Writer) (L : List (List (Header × Bytes))) : Prop where
  mtu_eq : w.mtu = mtu
  datagrams : w.finished ++ w.current.toList = L.map encoding
  filling : w.current = none → w.finished = []
  packing : Packing mtu L

theorem holds_empty (mtu : Nat) : (empty mtu).Holds mtu [] :=
  ⟨rfl, rfl, fun _ => rfl, .nil mtu⟩

theorem Holds.write {m : Header × Bytes} (hw : w.Holds mtu L) (hm : MessageWellFormed m)
    (hfit : messageLen m ≤ mtu) :
    ∃ w' L', w.write m.1 m.2 = .ok w' ∧ w'.Holds mtu L' ∧ L'.flatten = L.flatten ++ [m] := by
  have hlen : m.1.encodedLen + m.2.length ≤ w.mtu := by rw [hw.mtu_eq]; exact hfit
  have hmsg : m.1.encode ++ m.2 = encoding [m] := by simp [encoding]
  cases hc : w.current with
  | none =>
    -- nothing written since the last take
    have hf := hw.filling hc
    have hL : L = [] := by simpa [hc, hf] using hw.datagrams.symm
    subst hL
    refine ⟨{ w with current := some (m.1.encode ++ m.2) }, [[m]], ?_, ?_, by simp⟩
    · simp [write, hc, Nat.not_lt.2 hlen]
    · refine ⟨hw.mtu_eq, by simp [hf, hmsg], by simp, ?_⟩
      simpa using (Packing.nil mtu).push hm hfit (by simp)
  | some cur =>
    -- the datagram being filled is the encoding of the last group
    have hd := hw.datagrams
    rw [hc, Option.toList_some] at hd
    obtain ⟨L₀, G, hL, hfin, hG⟩ := List.map_eq_append_iff.1 hd.symm
    obtain ⟨g, rfl, hg⟩ : ∃ g, G = [g] ∧ encoding g = cur := by
      cases G with
      | nil => cases hG
      | cons g G =>
        cases G with
        | nil => exact ⟨g, rfl, by simpa using hG⟩
        | cons _ _ => cases hG
    subst hL
    by_cases hover : cur.length + (m.1.encodedLen + m.2.length) > w.mtu
    · refine ⟨{ w with current := some (m.1.encode ++ m.2), finished := w.finished ++ [cur] },
        L₀ ++ [g] ++ [[m]], ?_, ?_, by simp⟩
      · simp [write, hc, Nat.not_lt.2 hlen, hover]
      · refine ⟨hw.mtu_eq, by simp [hfin, hg, hmsg], by simp, ?_⟩
        refine hw.packing.push hm hfit fun g' hg' => ?_
        simp only [List.getLast?_append, List.getLast?_singleton, Option.some_or,
          Option.mem_def, Option.some.injEq] at hg'
        subst hg'
        rw [hg, ← hw.mtu_eq]
        exact hover
    · refine ⟨{ w with current := some (cur ++ (m.1.encode ++ m.2)) }, L₀ ++ [g ++ [m]], ?_, ?_,
        by simp⟩
      · simp [write, hc, Nat.not_lt.2 hlen, hover]
      · have hfit' : (encoding g).length + messageLen m ≤ mtu := by
          rw [hg, ← hw.mtu_eq]
          exact Nat.le_of_not_gt hover
        refine ⟨hw.mtu_eq, by simp [hfin, hg, hmsg], by simp, hw.packing.extend hm hfit'⟩

theorem Holds.take (hw : w.Holds mtu L) : w.take = (L.map encoding, empty mtu) := by
  obtain ⟨wm, cur, fin⟩ := w
  obtain ⟨rfl, hd, -, -⟩ := hw
  cases cur <;> simp_all [Writer.take, empty]

/-! ## Sessions -/

inductive Call where
  | write (h : Header) (payload : Bytes)
  | take

def Call.message? : Call → Option (Header × Bytes)
  | .write h p => some (h, p)
  | .take => none

def session : Writer → List Call → Except Crash (List (List Bytes) × Writer)
  | w, [] => .ok ([], w)
  | w, .write h p :: cs => do session (← w.write h p) cs
  | w, .take :: cs => do
    let (ts, w') ← session w.take.2 cs
    pure (w.take.1 :: ts, w')

theorem session_append_take (w : Writer) (cs : List Call) :
    w.session (cs ++ [.take]) = (w.session cs).map fun (ts, w') => (ts ++ [w'.take.1], w'.take.2) := by
  induction cs generalizing w with
  | nil => rfl
  | cons c cs ih =>
    cases c with
    | write h p =>
      cases hw : w.write h p with
      | error e => simp [session, hw, bind, Except.bind, Except.map]
      | ok w' => simp [session, hw, bind, Except.bind, ih]
    | take =>
      simp only [List.cons_append, session, ih]
      cases w.take.2.session cs <;> rfl

theorem Holds.session {cs : List Call} (hw : w.Holds mtu L)
    (hcs : ∀ m ∈ cs.filterMap Call.message?, MessageWellFormed m ∧ messageLen m ≤ mtu) :
    ∃ (Ps : List (List (List (Header × Bytes)))) (w' : Writer) (L' : List (List (Header × Bytes))),
      w.session cs = .ok (Ps.map (·.map encoding), w') ∧ w'.Holds mtu L' ∧
      (∀ P ∈ Ps, Packing mtu P) ∧
      (Ps.map List.flatten).flatten ++ L'.flatten = L.flatten ++ cs.filterMap Call.message? := by
  induction cs generalizing w L with
  | nil => exact ⟨[], w, L, rfl, hw, by simp, by simp⟩
  | cons c cs ih =>
    cases c with
    | write h p =>
      have hm : MessageWellFormed (h, p) ∧ messageLen (h, p) ≤ mtu := hcs (h, p) (by simp [Call.message?])
      obtain ⟨w₁, L₁, hw₁, hh₁, hL₁⟩ := hw.write hm.1 hm.2
      obtain ⟨Ps, w', L', hr, hh', hPs, hcat⟩ := ih hh₁ fun m hm' => hcs m (by simp_all [Call.message?])
      refine ⟨Ps, w', L', ?_, hh', hPs, ?_⟩
      · simp only [Writer.session, bind, Except.bind, hw₁]
        exact hr
      · rw [hcat, hL₁]
        simp [Call.message?]
    | take =>
      obtain ⟨Ps, w', L', hr, hh', hPs, hcat⟩ := ih (holds_empty mtu) fun m hm' => hcs m (by simp_all [Call.message?])
      refine ⟨L :: Ps, w', L', ?_, hh', ?_, ?_⟩
      · simp only [Writer.session, hw.take, hr, bind, Except.bind, pure, Except.pure, List.map_cons]
      · intro P hP
        rcases List.mem_cons.1 hP with rfl | hP
        · exact hw.packing
        · exact hPs P hP
      · simp only [List.map_cons, List.flatten_cons, List.append_assoc, hcat, List.flatten_nil,
          List.nil_append, List.filterMap_cons, Call.message?]

/-- Writing and taking: for every MTU and every sequence of writes and takes, each message well
formed and fitting the MTU on its own, with a last take, no call fails and the writer ends
empty; every datagram taken has at most `mtu` bytes; the datagrams of all takes read back,
without error and in order, as exactly the messages written; and within one take, a datagram
was closed only because the first message of the next one would not have fitted. -/
theorem session_reads_back (mtu : Nat) (cs : List Call)
    (hcs : ∀ m ∈ cs.filterMap Call.message?, MessageWellFormed m ∧ messageLen m ≤ mtu) :
    ∃ takes, (empty mtu).session (cs ++ [.take]) = .ok (takes, empty mtu) ∧
      (∀ ds ∈ takes, ∀ d ∈ ds, d.length ≤ mtu) ∧
      takes.flatten.flatMap Datagram.read = (cs.filterMap Call.message?).map .ok ∧
      ∀ ds ∈ takes, ds.IsChain fun d d' =>
        ∃ m ms, Datagram.read d' = .ok m :: ms ∧ mtu < d.length + messageLen m := by
  obtain ⟨Ps, w', L', hr, hh', hPs, hcat⟩ := (holds_empty mtu).session hcs
  -- the last take returns the last packing
  have hall : ∀ P ∈ Ps ++ [L'], Packing mtu P := by
    intro P hP
    rcases List.mem_append.1 hP with hP | hP
    · exact hPs P hP
    · rw [List.mem_singleton.1 hP]
      exact hh'.packing
  refine ⟨(Ps ++ [L']).map (·.map encoding), ?_, ?_, ?_, ?_⟩
  · rw [session_append_take, hr]
    simp [Except.map, hh'.take]
  · intro ds hds d hd
    obtain ⟨P, hP, rfl⟩ := List.mem_map.1 hds
    obtain ⟨g, hg, rfl⟩ := List.mem_map.1 hd
    exact (hall P hP).fits g hg
  · rw [Packing.read_takes hall]
    simpa using congrArg (List.map Except.ok) hcat
  · intro ds hds
    obtain ⟨P, hP, rfl⟩ := List.mem_map.1 hds
    exact (hall P hP).closed_datagrams

def threeIntoTwo : List Call := (List.range 3).map fun i =>
  .write { kind := .user .reliableOrdered 1, seq := some (Seq.ofNat i), payloadLen := 5 }
    (List.replicate 5 i.toUInt8)

example : ((empty 20).session (threeIntoTwo ++ [.take])).map (·.1.map (·.map List.length)) =
    .ok [[18, 9]] := by
  decide

theorem session_reads_back_three_into_two :
    (∀ m ∈ threeIntoTwo.filterMap Call.message?, MessageWellFormed m ∧ messageLen m ≤ 20) ∧
    ∃ takes, (empty 20).session (threeIntoTwo ++ [.take]) = .ok (takes, empty 20) ∧
      (∀ ds ∈ takes, ∀ d ∈ ds, d.length ≤ 20) ∧
      takes.flatten.flatMap Datagram.read = (threeIntoTwo.filterMap Call.message?).map .ok ∧
      ∀ ds ∈ takes, ds.IsChain fun d d' =>
        ∃ m ms, Datagram.read d' = .ok m :: ms ∧ 20 < d.length + messageLen m :=
  have hwf : ∀ m ∈ threeIntoTwo.filterMap Call.message?, MessageWellFormed m ∧ messageLen m ≤ 20 := by
    intro m hm
    simp only [threeIntoTwo, List.range_succ, List.range_zero, List.nil_append, List.map_append,
      List.map_cons, List.map_nil, List.filterMap_append, List.filterMap_cons, Call.message?,
      List.filterMap_nil, List.mem_append, List.mem_singleton] at hm
    rcases hm with (rfl | rfl) | rfl <;>
      exact ⟨⟨⟨by simp [Kind.Valid, Delivery.channels], by simp, by decide, by decide, by simp⟩,
        rfl⟩, by decide⟩
  ⟨hwf, session_reads_back 20 threeIntoTwo hwf⟩

end Writer
end Datagram
end ReliableUdp
