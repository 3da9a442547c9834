import ReliableUdp.Proofs.Lifecycle.Runs

/-!
# The handshake of two connections

Over every exchange on a network that loses, repeats and reorders, the acceptor connects only
once the initiator has, and the initiator only after a ConnectResponse carrying the hail it
keeps. Each side's own laws (`IniLaws`, `AccLaws`) and `Pair.Inv` carry the proof.
-/

namespace ReliableUdp

/-! ## What a turn keeps of a connection -/

namespace Op.Turn

variable {o : Op} {s s' : Snap} {m : Header × Bytes}

theorem wire_mono (ht : o.Turn s s') (hm : m ∈ s.wire) : m ∈ s'.wire := by
  obtain ⟨-, ms, hwire, -⟩ := ht
  rw [hwire]
  exact List.mem_append_left ms hm

theorem wellFormed (ht : o.Turn s s') (hw : ∀ m ∈ s.wire, MessageWellFormed m) :
    ∀ m ∈ s'.wire, MessageWellFormed m := by
  obtain ⟨-, ms, hwire, hsent⟩ := ht
  have hms : ∀ m ∈ ms, MessageWellFormed m := by
    cases o with
    | take =>
      rw [show ms = [] from hsent]
      simp
    | _ => exact hsent.2
  intro m hm
  rcases List.mem_append.1 (hwire ▸ hm) with hm | hm
  · exact hw m hm
  · exact hms m hm

theorem written (ht : o.Turn s s') (hs : s.conn.Sound) :
    ∃ M, s'.wire = s.wire ++ M ∧ (M = [] ∨ ∃ E, Path o.cause s.conn s.shared E M s'.conn s'.shared) := by
  rcases (ht.cases hs).2 with ⟨-, E, M, hp, hwire⟩ | ⟨-, -, -, hwire⟩
  · exact ⟨M, hwire, .inr ⟨E, hp⟩⟩
  · exact ⟨[], by simpa using hwire, .inl rfl⟩

theorem initiator_eq (ht : o.Turn s s') (hs : s.conn.Sound) :
    s'.conn.face.initiator = s.conn.face.initiator := by
  obtain ⟨f, hf, hface⟩ := ht.face_trace hs
  have h := Face.initiator_eq_of_trace hf
  rw [hface]
  exact h

theorem localHail_eq (ht : o.Turn s s') (hs : s.conn.Sound) (ha : s.conn.face.awaiting = false) :
    s'.conn.face.awaiting = false ∧ s'.conn.face.localHail = s.conn.face.localHail := by
  obtain ⟨f, hf, hface⟩ := ht.face_trace hs
  have h := Face.localHail_of_trace hf ha
  rw [hface]
  exact h

theorem settled (ht : o.Turn s s') (hs : s.conn.Sound)
    (hset : s.conn.face.responded = true → s.conn.face.awaiting = false) :
    s'.conn.face.responded = true → s'.conn.face.awaiting = false := by
  obtain ⟨f, hf, hface⟩ := ht.face_trace hs
  have h := Face.holds_of_trace (fun _ _ h => h.settled) hf hset
  rw [hface]
  exact h

theorem remoteHail_of_acceptor (ht : o.Turn s s') (hs : s.conn.Sound)
    (hi : s.conn.face.initiator = false) : s'.conn.face.remoteHail = s.conn.face.remoteHail := by
  obtain ⟨f, hf, hface⟩ := ht.face_trace hs
  have h := Face.holds_of_trace (P := fun g => g.initiator = false ∧ g.remoteHail = s.conn.face.remoteHail)
    (fun _ _ h hg => ⟨h.initiator_eq.trans hg.1, (h.remoteHail_of_acceptor hg.1).trans hg.2⟩) hf ⟨hi, rfl⟩
  rw [hface]
  exact h.2

theorem remoteHail_of_sending (ht : o.Turn s s') (hs : s.conn.Sound) (hst : s.conn.face.Sending) :
    s'.conn.face.remoteHail = s.conn.face.remoteHail := by
  obtain ⟨f, hf, hface⟩ := ht.face_trace hs
  have h := Face.remoteHail_eq_of_trace hf (by rcases hst with h | h <;> rw [h] <;> decide)
  rw [hface]
  exact h

theorem sending_of_disconnecting (ht : o.Turn s s') (hs : s.conn.Sound)
    (hg : s'.conn.status = .disconnecting) : s.conn.face.Sending := by
  obtain ⟨f, hf, hface⟩ := ht.face_trace hs
  exact Face.sending_of_disconnecting hf ((congrArg Face.status hface).symm.trans hg)

theorem sending_of (ht : o.Turn s s') (hs : s.conn.Sound) (hκ : ¬o.cause.Connects)
    (hg : s'.conn.face.Sending) : s.conn.face.Sending := by
  obtain ⟨f, hf, hface⟩ := ht.face_trace hs
  have hg' : f.Sending := by
    rw [hface] at hg
    exact hg
  exact (Face.sending_of_trace hf hκ).2 hg'

theorem connects (ht : o.Turn s s') (hs : s.conn.Sound) (hf : s.conn.status ≠ .connected)
    (hg : s'.conn.status = .connected) :
    (s.conn.face.initiator = false ∧ o.cause.Confirms) ∨
      (s.conn.face.initiator = true ∧ ∃ hail, o.cause.Responds hail ∧ s'.conn.face.remoteHail = hail) := by
  obtain ⟨f, htr, hface⟩ := ht.face_trace hs
  have hr : s'.conn.face.remoteHail = f.remoteHail := by rw [hface]
  rcases Face.connects_of_trace htr hf ((congrArg Face.status hface).symm.trans hg) with
    h | ⟨hi, hail, hresp, hh⟩
  · exact .inl h
  · exact .inr ⟨hi, hail, hresp, hr.trans hh⟩

theorem connects_carry (ht : o.Turn s s') (hs : s.conn.Sound) (ha : s.conn.face.awaiting = false)
    (hW : ∀ m ∈ s.wire, IsControl .connect m → ∃ app, m.2 = Payload.connect app s.conn.face.localHail) :
    ∀ m ∈ s'.wire, IsControl .connect m → ∃ app, m.2 = Payload.connect app s'.conn.face.localHail := by
  obtain ⟨M, hwire, hM⟩ := ht.written hs
  have hl := (ht.localHail_eq hs ha).2
  intro m hm hk
  rcases List.mem_append.1 (hwire ▸ hm) with hm | hm
  · rw [hl]
    exact hW m hm hk
  · rcases hM with rfl | ⟨E, hp⟩
    · cases hm
    · exact hp.connect ha hm hk

theorem responses_carry (ht : o.Turn s s') (hs : s.conn.Sound)
    (hset : s.conn.face.responded = true → s.conn.face.awaiting = false)
    (hW : ∀ m ∈ s.wire, IsControl .connectResponse m →
      m.2 = Wire.putBytes s.conn.face.localHail ∧ s.conn.face.awaiting = false) :
    ∀ m ∈ s'.wire, IsControl .connectResponse m →
      m.2 = Wire.putBytes s'.conn.face.localHail ∧ s'.conn.face.awaiting = false := by
  obtain ⟨M, hwire, hM⟩ := ht.written hs
  intro m hm hk
  rcases List.mem_append.1 (hwire ▸ hm) with hm | hm
  · obtain ⟨hp, ha⟩ := hW m hm hk
    obtain ⟨ha', hl⟩ := ht.localHail_eq hs ha
    exact ⟨by rw [hl]; exact hp, ha'⟩
  · rcases hM with rfl | ⟨E, hp⟩
    · cases hm
    · exact hp.connectResponse hset hm hk

theorem confirming (ht : o.Turn s s') (hs : s.conn.Sound) (hm : m ∈ s'.wire)
    (hc : (Cause.message m.1 m.2).Confirms) :
    m ∈ s.wire ∨ s.conn.face.Sending ∨ s'.conn.face.status = .connected := by
  obtain ⟨M, hwire, hM⟩ := ht.written hs
  rcases List.mem_append.1 (hwire ▸ hm) with hm | hm
  · exact .inl hm
  · rcases hM with rfl | ⟨E, hp⟩
    · cases hm
    · exact .inr (hp.confirming hm hc)

end Op.Turn

/-! ## Messages heard -/

/-- A message the network may deliver to a side: one the other side has written, at any time,
any number of times and in any order. An operation other than a receive takes none. -/
def Op.Heard : Op → List (Header × Bytes) → Prop
  | .receive h p _, W => (h, p) ∈ W
  | _, _ => True

theorem Op.Heard.mem {o : Op} {W : List (Header × Bytes)} {h : Header} {p : Bytes} (hh : o.Heard W)
    (hc : o.cause = .message h p) : (h, p) ∈ W := by
  cases o with
  | receive =>
    cases hc
    exact hh
  | _ => cases hc

theorem Turn.heard_of_ops {ts : List Turn} {os : List Op} {W : List (Header × Bytes)}
    (hops : ts.map Turn.op = os) (h : ∀ o ∈ os, o.Heard W) : ∀ t ∈ ts, t.op.Heard W :=
  fun t ht => h t.op (hops ▸ List.mem_map_of_mem ht)

theorem Cause.Confirms.message {κ : Cause} (h : κ.Confirms) : ∃ hd p, κ = .message hd p := by
  cases κ with
  | message hd p => exact ⟨hd, p, rfl⟩
  | _ => exact h.elim

theorem Cause.Responds.message {κ : Cause} {hail : Bytes} (h : κ.Responds hail) :
    ∃ hd p, κ = .message hd p ∧ IsControl .connectResponse (hd, p) ∧
      ∃ rest, Wire.readBytes p = .ok (hail, rest) := by
  cases κ with
  | message hd p => exact ⟨hd, p, rfl, ⟨h.1, h.2.1⟩, h.2.2⟩
  | _ => exact h.elim

theorem MessageWellFormed.readBytes {h : Header} {x hail rest : Bytes}
    (hw : MessageWellFormed (h, Wire.putBytes x)) (hr : Wire.readBytes (Wire.putBytes x) = .ok (hail, rest)) :
    hail = x := by
  have hlen : x.length < 2 ^ 64 := by
    have h₁ : h.payloadLen = (Wire.putBytes x).length := hw.2
    have h₂ : h.payloadLen ≤ Header.maxPayload := hw.1.len
    have h₃ : (Wire.putBytes x).length = (Wire.putVarint x.length).length + x.length := by
      simp [Wire.putBytes, Wire.putBytesWith, Wire.Varint.leb128]
    unfold Header.maxPayload at h₂
    omega
  have h₄ := Wire.readBytes_putBytes hlen []
  rw [List.append_nil, hr] at h₄
  exact (Prod.mk.inj (Except.ok.inj h₄)).1

theorem MessageWellFormed.readConnect {h : Header} {app app' : String} {x hail rest : Bytes}
    (hw : MessageWellFormed (h, Payload.connect app x))
    (hr : Payload.readConnect (Payload.connect app x) = .ok ((app', hail), rest)) : hail = x := by
  have hlen : (Utf8.encode app).length < 2 ^ 64 ∧ x.length < 2 ^ 64 := by
    have h₁ : h.payloadLen = (Payload.connect app x).length := hw.2
    have h₂ : h.payloadLen ≤ Header.maxPayload := hw.1.len
    have h₃ : (Payload.connect app x).length = (Wire.putVarint (Utf8.encode app).length).length +
        (Utf8.encode app).length + ((Wire.putVarint x.length).length + x.length) := by
      simp only [Payload.connect, Payload.connectWith, Wire.putTextWith, Wire.putBytesWith,
        Wire.Varint.leb128, List.length_append]
    unfold Header.maxPayload at h₂
    omega
  have h₄ := Payload.readConnect_connect hlen.1 hlen.2 []
  rw [List.append_nil, hr] at h₄
  exact (Prod.mk.inj (Prod.mk.inj (Except.ok.inj h₄)).1).2

/-! ## Two connections -/

/-- An initiating connection and, once its Connect reached the remote peer, the accepting
connection. -/
structure Pair where
  ini : Snap
  acc : Option Snap

namespace Pair

def accWire (p : Pair) : List (Header × Bytes) :=
  match p.acc with
  | some a => a.wire
  | none => []

inductive Step : Pair → Pair → Prop
  | ini {p : Pair} {o : Op} {s : Snap} :
      o.Turn p.ini s → o.Heard p.accWire → Step p { p with ini := s }
  | accept {p : Pair} {m : Header × Bytes} {app : String} {hail rest : Bytes} {id n now : Nat}
      {r : Endpoint} {sh : Shared} {s : Snap} :
      p.acc = none → m ∈ p.ini.wire → IsControl .connect m →
      Payload.readConnect m.2 = .ok ((app, hail), rest) →
      (Origin.incoming id r n hail now).Creates sh s → Step p { p with acc := some s }
  | acc {p : Pair} {a : Snap} {o : Op} {s : Snap} :
      p.acc = some a → o.Turn a s → o.Heard p.ini.wire → Step p { p with acc := some s }

inductive Run : List Pair → Pair → Prop
  | start {id n now : Nat} {r : Endpoint} {hail : Bytes} {sh : Shared} {s : Snap} :
      (Origin.outgoing id r n hail now).Creates sh s → Run [] ⟨s, none⟩
  | step {ps : List Pair} {p p' : Pair} : Run ps p → Step p p' → Run (ps ++ [p]) p'

def WasConnected (ps : List Pair) (p : Pair) : Prop :=
  ∃ q ∈ ps ++ [p], q.ini.conn.status = .connected

theorem WasConnected.step {ps : List Pair} {p p' : Pair} (h : WasConnected ps p) :
    WasConnected (ps ++ [p]) p' := by
  obtain ⟨q, hq, hc⟩ := h
  exact ⟨q, List.mem_append_left _ hq, hc⟩

theorem WasConnected.now {ps : List Pair} {p : Pair} (h : p.ini.conn.status = .connected) :
    WasConnected ps p :=
  ⟨p, List.mem_append_right _ List.mem_cons_self, h⟩

/-! ## The laws of each side -/

structure IniLaws (s : Snap) : Prop where
  sound : s.conn.Sound
  initiator : s.conn.face.initiator = true
  awaiting : s.conn.face.awaiting = false
  wellFormed : ∀ m ∈ s.wire, MessageWellFormed m
  connects : ∀ m ∈ s.wire, IsControl .connect m → ∃ app, m.2 = Payload.connect app s.conn.face.localHail

structure AccLaws (a : Snap) : Prop where
  sound : a.conn.Sound
  acceptor : a.conn.face.initiator = false
  wellFormed : ∀ m ∈ a.wire, MessageWellFormed m
  settled : a.conn.face.responded = true → a.conn.face.awaiting = false
  responses : ∀ m ∈ a.wire, IsControl .connectResponse m →
    m.2 = Wire.putBytes a.conn.face.localHail ∧ a.conn.face.awaiting = false

variable {o : Op} {s s' : Snap}

theorem IniLaws.create {id n now : Nat} {r : Endpoint} {hail : Bytes} {sh : Shared}
    (hc : (Origin.outgoing id r n hail now).Creates sh s) : IniLaws s := by
  obtain ⟨hface, hsound, -⟩ := Origin.create_spec hc.1
  have hnil : ∀ m, m ∉ s.wire := by
    rw [hc.2]
    intro m hm
    cases hm
  refine ⟨hsound, ?_, ?_, fun m hm => absurd hm (hnil m), fun m hm => absurd hm (hnil m)⟩
  · rw [hface]
    rfl
  · rw [hface]
    rfl

theorem IniLaws.turn (h : IniLaws s) (ht : o.Turn s s') : IniLaws s' :=
  ⟨(ht.cases h.sound).1, (ht.initiator_eq h.sound).trans h.initiator,
    (ht.localHail_eq h.sound h.awaiting).1, ht.wellFormed h.wellFormed,
    ht.connects_carry h.sound h.awaiting h.connects⟩

theorem AccLaws.create {id n now : Nat} {r : Endpoint} {hail : Bytes} {sh : Shared}
    (hc : (Origin.incoming id r n hail now).Creates sh s) :
    AccLaws s ∧ s.conn.face.remoteHail = hail ∧ s.conn.status = .connecting := by
  obtain ⟨hface, hsound, -⟩ := Origin.create_spec hc.1
  have hnil : ∀ m, m ∉ s.wire := by
    rw [hc.2]
    intro m hm
    cases hm
  have hresp : s.conn.face.responded = false := by
    rw [hface]
    rfl
  refine ⟨⟨hsound, ?_, fun m hm => absurd hm (hnil m), fun h => ?_,
    fun m hm => absurd hm (hnil m)⟩, ?_, ?_⟩
  · rw [hface]
    rfl
  · rw [hresp] at h
    cases h
  · rw [hface]
    rfl
  · have := congrArg Face.status hface
    exact this

theorem AccLaws.turn (h : AccLaws s) (ht : o.Turn s s') : AccLaws s' :=
  ⟨(ht.cases h.sound).1, (ht.initiator_eq h.sound).trans h.acceptor, ht.wellFormed h.wellFormed,
    ht.settled h.sound h.settled, ht.responses_carry h.sound h.settled h.responses⟩

theorem IniLaws.connect_hail (h : IniLaws s) {m : Header × Bytes} {app : String} {hail rest : Bytes}
    (hm : m ∈ s.wire) (hk : IsControl .connect m)
    (hread : Payload.readConnect m.2 = .ok ((app, hail), rest)) : hail = s.conn.face.localHail := by
  obtain ⟨app', hbody⟩ := h.connects m hm hk
  have hwf := h.wellFormed m hm
  obtain ⟨hd, body⟩ := m
  simp only at hbody hread
  subst hbody
  exact hwf.readConnect hread

theorem AccLaws.response_hail (h : AccLaws s) {m : Header × Bytes} {hail rest : Bytes}
    (hm : m ∈ s.wire) (hk : IsControl .connectResponse m)
    (hread : Wire.readBytes m.2 = .ok (hail, rest)) : hail = s.conn.face.localHail := by
  obtain ⟨hbody, -⟩ := h.responses m hm hk
  have hwf := h.wellFormed m hm
  obtain ⟨hd, body⟩ := m
  simp only at hbody hread
  subst hbody
  exact hwf.readBytes hread

/-! ## What ties the two together -/

/-- What an exchange keeps: each side's laws; the acceptor keeps the initiator's hail and
connects only once the initiator has been; the initiator writes ConnectionEstablished and data
only once connected, and is connected or lingering only once the acceptor has written a
ConnectResponse with the hail the initiator keeps. -/
structure Inv (ps : List Pair) (p : Pair) : Prop where
  ini : IniLaws p.ini
  accLaws : ∀ a, p.acc = some a → AccLaws a
  accRemote : ∀ a, p.acc = some a → a.conn.face.remoteHail = p.ini.conn.face.localHail
  accConfirmed : ∀ a, p.acc = some a → a.conn.status = .connected → WasConnected ps p
  confirmed : ∀ m ∈ p.ini.wire, (Cause.message m.1 m.2).Confirms → WasConnected ps p
  lingered : p.ini.conn.face.Sending → WasConnected ps p
  answered : p.ini.conn.face.Sending → ∃ a, p.acc = some a ∧
    ∃ m ∈ a.wire, IsControl .connectResponse m ∧ p.ini.conn.face.remoteHail = a.conn.face.localHail

namespace Inv

variable {ps : List Pair} {p : Pair}

theorem start {id n now : Nat} {r : Endpoint} {hail : Bytes} {sh : Shared}
    (hc : (Origin.outgoing id r n hail now).Creates sh s) : Inv [] ⟨s, none⟩ := by
  have hini := IniLaws.create hc
  have hst : s.conn.status = .connecting := by
    have := congrArg Face.status (Origin.create_spec hc.1).1
    exact this
  have hns : ¬s.conn.face.Sending := by
    rintro (h | h) <;> exact absurd (hst.symm.trans h) (by decide)
  refine ⟨hini, fun a ha => ?_, fun a ha => ?_, fun a ha => ?_, fun m hm => ?_, fun h => ?_,
    fun h => ?_⟩
  · cases ha
  · cases ha
  · cases ha
  · rw [hc.2] at hm
    cases hm
  · exact absurd h hns
  · exact absurd h hns

theorem ini_step (hI : Inv ps p) (ht : o.Turn p.ini s) (hh : o.Heard p.accWire) :
    Inv (ps ++ [p]) { p with ini := s } := by
  have hs := hI.ini.sound
  have hl := ht.localHail_eq hs hI.ini.awaiting
  refine ⟨hI.ini.turn ht, hI.accLaws, fun a ha => (hI.accRemote a ha).trans hl.2.symm,
    fun a ha hc => (hI.accConfirmed a ha hc).step, fun m hm hc => ?_, fun hg => ?_, fun hg => ?_⟩
  · rcases ht.confirming hs hm hc with hm | hpre | hnow
    · exact (hI.confirmed m hm hc).step
    · exact (hI.lingered hpre).step
    · exact .now hnow
  · rcases hg with hnow | hd
    · exact .now hnow
    · exact (hI.lingered (ht.sending_of_disconnecting hs hd)).step
  · by_cases hpre : p.ini.conn.face.Sending
    · -- connected before: the remote hail stays
      obtain ⟨a, ha, m, hm, hk, hr⟩ := hI.answered hpre
      exact ⟨a, ha, m, hm, hk, (ht.remoteHail_of_sending hs hpre).trans hr⟩
    · -- this turn connects the initiator, on a ConnectResponse the acceptor wrote
      have hconn : s.conn.status = .connected := by
        rcases hg with hc | hd
        · exact hc
        · exact absurd (ht.sending_of_disconnecting hs hd) hpre
      rcases ht.connects hs (fun h => hpre (.inl h)) hconn with ⟨hi, -⟩ | ⟨-, hail, hresp, hrh⟩
      · rw [hI.ini.initiator] at hi
        cases hi
      obtain ⟨hd, body, hcause, hk, rest, hread⟩ := hresp.message
      have hmem := hh.mem hcause
      cases hacc : p.acc with
      | none =>
        rw [accWire, hacc] at hmem
        cases hmem
      | some a =>
        rw [accWire, hacc] at hmem
        exact ⟨a, rfl, _, hmem, hk, hrh.trans ((hI.accLaws a hacc).response_hail hmem hk hread)⟩

theorem accept_step {m : Header × Bytes} {app : String} {hail rest : Bytes} {id n now : Nat}
    {r : Endpoint} {sh : Shared} (hI : Inv ps p) (hnone : p.acc = none) (hm : m ∈ p.ini.wire)
    (hk : IsControl .connect m) (hread : Payload.readConnect m.2 = .ok ((app, hail), rest))
    (hc : (Origin.incoming id r n hail now).Creates sh s) : Inv (ps ++ [p]) { p with acc := some s } := by
  obtain ⟨hlaws, hremote, hst⟩ := AccLaws.create hc
  -- the Connect carries the initiator's hail
  have hhail : hail = p.ini.conn.face.localHail := hI.ini.connect_hail hm hk hread
  refine ⟨hI.ini, fun a ha => ?_, fun a ha => ?_, fun a ha hc => ?_, fun m hm hc => (hI.confirmed m hm hc).step,
    fun hg => (hI.lingered hg).step, fun hg => ?_⟩
  · cases ha
    exact hlaws
  · cases ha
    exact hremote.trans hhail
  · cases ha
    rw [hst] at hc
    cases hc
  · obtain ⟨a, ha, -⟩ := hI.answered hg
    rw [hnone] at ha
    cases ha

theorem acc_step {a : Snap} (hI : Inv ps p) (ha : p.acc = some a) (ht : o.Turn a s)
    (hh : o.Heard p.ini.wire) : Inv (ps ++ [p]) { p with acc := some s } := by
  have haw := hI.accLaws a ha
  refine ⟨hI.ini, fun a' ha' => ?_, fun a' ha' => ?_, fun a' ha' hc => ?_,
    fun m hm hc => (hI.confirmed m hm hc).step, fun hg => (hI.lingered hg).step, fun hg => ?_⟩
  · cases ha'
    exact haw.turn ht
  · cases ha'
    exact (ht.remoteHail_of_acceptor haw.sound haw.acceptor).trans (hI.accRemote a ha)
  · cases ha'
    by_cases hpre : a.conn.status = .connected
    · exact (hI.accConfirmed a ha hpre).step
    · -- this turn connects the acceptor, on a message the initiator wrote
      rcases ht.connects haw.sound hpre hc with ⟨-, hconf⟩ | ⟨hi, -⟩
      · obtain ⟨hd, body, hcause⟩ := hconf.message
        have hmem := hh.mem hcause
        rw [hcause] at hconf
        exact (hI.confirmed _ hmem hconf).step
      · rw [haw.acceptor] at hi
        cases hi
  · -- the ConnectResponse stays written, and the local hail with it
    obtain ⟨a₀, ha₀, m, hm, hk, hr⟩ := hI.answered hg
    rw [ha] at ha₀
    cases ha₀
    have hawait := (haw.responses m hm hk).2
    exact ⟨s, rfl, m, ht.wire_mono hm, hk, hr.trans (ht.localHail_eq haw.sound hawait).2.symm⟩

theorem step {p' : Pair} (hI : Inv ps p) (hs : Step p p') : Inv (ps ++ [p]) p' := by
  cases hs with
  | ini ht hh => exact hI.ini_step ht hh
  | accept hnone hm hk hread hc => exact hI.accept_step hnone hm hk hread hc
  | acc ha ht hh => exact hI.acc_step ha ht hh

end Inv

theorem Run.inv {ps : List Pair} {p : Pair} (h : Run ps p) : Inv ps p := by
  induction h with
  | start hc => exact .start hc
  | step _ hs ih => exact ih.step hs

theorem Run.ini_chain {s₀ s : Snap} {ts : List Turn} (hch : Chain s₀ ts s) :
    ∀ {ps : List Pair} {p : Pair}, Run ps p → p.ini = s₀ → (∀ t ∈ ts, t.op.Heard p.accWire) →
      ∃ ps', Run ps' { p with ini := s } := by
  induction hch with
  | nil =>
    intro ps p hr hp _
    subst hp
    exact ⟨ps, hr⟩
  | @cons t _ _ ht _ ih =>
    intro ps p hr hp hh
    have hstep : Step p { p with ini := t.post } := .ini (hp ▸ ht) (hh t List.mem_cons_self)
    -- the acceptor is untouched, so what the later turns hear is still its wire
    exact ih (p := { p with ini := t.post }) (hr.step hstep) rfl
      fun t' h' => hh t' (List.mem_cons_of_mem _ h')

theorem Run.acc_chain {s₀ s : Snap} {ts : List Turn} (hch : Chain s₀ ts s) :
    ∀ {ps : List Pair} {p : Pair}, Run ps p → p.acc = some s₀ → (∀ t ∈ ts, t.op.Heard p.ini.wire) →
      ∃ ps', Run ps' { p with acc := some s } := by
  induction hch with
  | nil =>
    intro ps p hr hp _
    obtain ⟨i, a⟩ := p
    cases hp
    exact ⟨ps, hr⟩
  | @cons t _ _ ht _ ih =>
    intro ps p hr hp hh
    have hstep : Step p { p with acc := some t.post } := .acc hp ht (hh t List.mem_cons_self)
    exact ih (p := { p with acc := some t.post }) (hr.step hstep) rfl
      fun t' h' => hh t' (List.mem_cons_of_mem _ h')

end Pair

/-- Over every exchange of an initiator and the acceptor it brings about: the acceptor is
connected only once the initiator has been; the initiator is connected only once the acceptor
has written a ConnectResponse, which carries the initiator's remote hail; and while both are
connected, each one's remote hail is the other's local hail. -/
theorem handshake_order {ps : List Pair} {p : Pair} (hr : Pair.Run ps p) :
    (∀ a, p.acc = some a → a.conn.status = .connected →
      ∃ q ∈ ps ++ [p], q.ini.conn.status = .connected) ∧
    (p.ini.conn.status = .connected → ∃ m ∈ p.accWire, IsControl .connectResponse m ∧
      m.2 = Wire.putBytes p.ini.conn.face.remoteHail) ∧
    (∀ a, p.acc = some a → p.ini.conn.status = .connected → a.conn.status = .connected →
      p.ini.conn.face.remoteHail = a.conn.face.localHail ∧
        a.conn.face.remoteHail = p.ini.conn.face.localHail) := by
  have hI := hr.inv
  refine ⟨hI.accConfirmed, fun hc => ?_, fun a ha hc _ => ?_⟩
  · obtain ⟨a, ha, m, hm, hk, hr⟩ := hI.answered (.inl hc)
    refine ⟨m, by rw [Pair.accWire, ha]; exact hm, hk, ?_⟩
    rw [hr]
    exact ((hI.accLaws a ha).responses m hm hk).1
  · obtain ⟨a₀, ha₀, -, -, -, hr⟩ := hI.answered (.inl hc)
    rw [ha] at ha₀
    cases ha₀
    exact ⟨hr, hI.accRemote a ha⟩

theorem handshake_order_completes :
    ∃ ps p a, Pair.Run ps p ∧ p.acc = some a ∧ p.ini.conn.status = .connected ∧
      a.conn.status = .connected ∧ p.ini.conn.face.remoteHail = a.conn.face.localHail ∧
        a.conn.face.remoteHail = p.ini.conn.face.localHail := by
  -- the initiator is created and its first heartbeat writes Connect
  obtain ⟨i₀, hi₀⟩ := @Origin.creates_of_isOk (.outgoing 0 (.localhost 6000) 1200 [7] 0)
    (Shared.create { appId := "app" }) (by decide +kernel)
  obtain ⟨-, hs₀, hw₀, -⟩ := Origin.create_spec hi₀.1
  obtain ⟨ts₁, i₁, hch₁, hops₁, he₁, hc₁⟩ := Chain.of_run hi₀.1 hs₀ [.heartbeat 0]
    (fun x => x.1.writer.content)
    (Datagram.Writer.encoding
      [({ kind := .control, control := some .connect, payloadLen := (Payload.connect "app" [7]).length },
        Payload.connect "app" [7])]) (by decide +kernel)
  have hw₁ := hch₁.wire_eq_control (k := .connect) (by rw [hops₁]; simp)
    (by rw [hc₁, hw₀, List.nil_append]) (by decide +kernel)
  rw [hi₀.2, List.nil_append] at hw₁
  obtain ⟨ps₁, hr₁⟩ := Pair.Run.ini_chain hch₁ (.start hi₀) rfl
    (Turn.heard_of_ops hops₁ (by simp [Op.Heard]))
  -- the acceptor is created from that Connect
  obtain ⟨a₀, ha₀⟩ := @Origin.creates_of_isOk (.incoming 1 (.localhost 5000) 1200 [7] 0)
    (Shared.create { appId := "app" }) (by decide +kernel)
  have hr₂ := hr₁.step (.accept rfl (by rw [hw₁]; exact List.mem_singleton_self _) ⟨rfl, rfl⟩
    (show Payload.readConnect (Payload.connect "app" [7]) = .ok (("app", [7]), []) by decide +kernel) ha₀)
  -- the acceptor's first heartbeat writes ConnectResponse
  obtain ⟨-, hsa₀, hwa₀, -⟩ := Origin.create_spec ha₀.1
  obtain ⟨ts₂, a₁, hch₂, hops₂, he₂, hc₂⟩ := Chain.of_run ha₀.1 hsa₀ [.heartbeat 0]
    (fun x => x.1.writer.content)
    (Datagram.Writer.encoding
      [({ kind := .control, control := some .connectResponse, payloadLen := 1 }, Wire.putBytes [])])
    (by decide +kernel)
  have hwa₁ := hch₂.wire_eq_control (k := .connectResponse) (by rw [hops₂]; simp)
    (by rw [hc₂, hwa₀, List.nil_append]) (by decide +kernel)
  rw [ha₀.2, List.nil_append] at hwa₁
  obtain ⟨ps₃, hr₃⟩ := Pair.Run.acc_chain hch₂ hr₂ rfl (Turn.heard_of_ops hops₂ (by simp [Op.Heard]))
  -- the initiator receives it, connects and writes ConnectionEstablished
  obtain ⟨ts₃, i₂, hch₃, hops₃, -, hc₃⟩ := Chain.of_run he₁ (hch₁.sound hs₀)
    [.receive { kind := .control, control := some .connectResponse, payloadLen := 1 } (Wire.putBytes []) 1]
    (fun x => (x.1.status, x.1.writer.content))
    (.connected, Datagram.Writer.encoding
      [({ kind := .control, control := some .connect, payloadLen := (Payload.connect "app" [7]).length },
          Payload.connect "app" [7]),
        ({ kind := .control, control := some .connectionEstablished, payloadLen := 0 }, [])])
    (by decide +kernel)
  obtain ⟨hst₃, hc₃⟩ := Prod.mk.inj hc₃
  have hwi₂ := hch₃.wire_eq_control (k := .connectionEstablished) (by rw [hops₃]; simp)
    (by rw [hc₃, hc₁, ← Datagram.Writer.encoding_append, List.singleton_append]) (by decide +kernel)
  obtain ⟨ps₄, hr₄⟩ := Pair.Run.ini_chain hch₃ hr₃ rfl
    (Turn.heard_of_ops hops₃ (by simp [Op.Heard, Pair.accWire, hwa₁]))
  -- the acceptor receives ConnectionEstablished and connects
  obtain ⟨ts₄, a₂, hch₄, hops₄, -, hst₄⟩ := Chain.of_run he₂ (hch₂.sound hsa₀)
    [.receive { kind := .control, control := some .connectionEstablished, payloadLen := 0 } [] 1]
    (fun x => x.1.status) .connected (by decide +kernel)
  obtain ⟨ps₅, hr₅⟩ := Pair.Run.acc_chain hch₄ hr₄ rfl
    (Turn.heard_of_ops hops₄ (by simp [Op.Heard, hwi₂, hw₁]))
  exact ⟨ps₅, _, a₂, hr₅, rfl, hst₃, hst₄, (handshake_order hr₅).2.2 a₂ rfl hst₃ hst₄⟩

end ReliableUdp
