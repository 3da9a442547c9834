import ReliableUdp.Connection.Heartbeat
import ReliableUdp.Proofs.Outbound

/-!
# The moves of a connection

`Move` says once what one step of a connection can do to its `Face`, the messages it writes and
the events it releases, by `Cause`. `Leads κ c x out Q` says every successful run of `x` goes
from `c` along a `Path` of moves, with rules following `pure`, `bind` and `foldlM`.
-/

namespace ReliableUdp

/-- The part of a connection its status and handshake laws read. -/
structure Face where
  status : Status
  shown : Status
  initiator : Bool
  awaiting : Bool
  responded : Bool
  localHail : Bytes
  remoteHail : Bytes
  decision : Option Decision
  id : Nat
  remote : Endpoint

def Connection.face (c : Connection) : Face where
  status := c.status
  shown := c.handle.status
  initiator := c.initiator
  awaiting := c.handshake.awaitingApproval
  responded := c.handshake.responseSent
  localHail := c.handshake.localHail
  remoteHail := c.handle.remoteHail
  decision := c.handle.decision
  id := c.handle.id
  remote := c.handle.remote

/-- Why a connection acts: its periodic step, a message from its remote endpoint, or a local
call to disconnect or close with a reason. -/
inductive Cause where
  | tick
  | message (h : Header) (p : Bytes)
  | call (reason : String)

namespace Cause

def Confirms : Cause → Prop
  | .message h _ =>
    (h.kind = .control ∧ h.control = some .connectionEstablished) ∨ ∃ m ch, h.kind = .user m ch
  | _ => False

def Responds : Cause → Bytes → Prop
  | .message h p, hail =>
    h.kind = .control ∧ h.control = some .connectResponse ∧ ∃ rest, Wire.readBytes p = .ok (hail, rest)
  | _, _ => False

def Closes : Cause → String → Prop
  | .tick, _ => True
  | .message h p, reason =>
    h.kind = .control ∧ h.control = some .disconnect ∧ ∃ rest, Wire.readText p = .ok (reason, rest)
  | .call r, reason => reason = r

def Lingers : Cause → String → Prop
  | .tick, _ => True
  | .message _ _, _ => False
  | .call r, reason => reason = r

end Cause

namespace Face

def enter (f : Face) (s : Status) : Face := { f with status := s, shown := s }

def close (f : Face) : Face := if f.status = .disconnected then f else f.enter .disconnected

theorem close_of_disconnected {f : Face} (h : f.status = .disconnected) : f.close = f := if_pos h

theorem close_of_ne {f : Face} (h : f.status ≠ .disconnected) : f.close = f.enter .disconnected :=
  if_neg h

@[simp] theorem close_status (f : Face) : f.close.status = .disconnected := by
  unfold close
  split <;> simp_all [enter]

def Enters (f : Face) (κ : Cause) : Status → String → Prop
  | .connected, r => f.status = .connecting ∧ f.initiator = false ∧ f.responded = true ∧ κ.Confirms ∧ r = ""
  | .disconnecting, r => f.status = .connected ∧ κ.Lingers r
  | .disconnected, r => f.status ≠ .disconnected ∧ κ.Closes r
  | _, _ => False

/-- The control messages a connection may write in face `f` on their own: Connect with its hail
while the initiator connects, ConnectResponse with its hail once the acceptor responds,
ConnectionEstablished while the initiator is connected, and until it is disconnected the others
but Disconnect, which goes out only as the connection closes. -/
def MayWrite (f : Face) : Control → Bytes → Prop
  | .connect, p => f.initiator = true ∧ f.status = .connecting ∧ ∃ app, p = Payload.connect app f.localHail
  | .connectResponse, p =>
    f.initiator = false ∧ f.status = .connecting ∧ f.responded = true ∧ p = Wire.putBytes f.localHail
  | .connectionEstablished, _ => f.initiator = true ∧ f.status = .connected
  | .disconnect, _ => False
  | _, _ => f.status ≠ .disconnected

def Sending (f : Face) : Prop := f.status = .connected ∨ f.status = .disconnecting

end Face

def Event.IsChatter (e : Event) : Prop :=
  match e.kind with
  | .status .. | .data .. => False
  | _ => True

def Emits (sh : Shared) (e : List Event) (sh' : Shared) : Prop :=
  sh'.released.enabled = sh.released.enabled ∧ sh'.released.events = sh.released.events ++ e

def statusNote (sh : Shared) (c : Connection) (s : Status) (reason : String) : List Event :=
  if Notify.has sh.released.enabled Notify.status then
    [{ kind := .status s reason, handle := some c.handle.id, sender := some c.remote }]
  else []

def closeNote (sh : Shared) (c : Connection) (reason : String) : List Event :=
  if c.status = .disconnected then [] else statusNote sh c .disconnected reason

def dataNote (c : Connection) (m : Delivery) (ch : Nat) (d : Bytes) : Event :=
  { kind := .data m ch, handle := some c.handle.id, sender := some c.remote, data := d }

/-- One step of a connection with cause `κ`: from `c` and `sh` to `c'` and `sh'`, releasing
the events `e` and writing the messages `ms`. -/
inductive Move (κ : Cause) :
    Connection → Shared → List Event → List (Header × Bytes) → Connection → Shared → Prop
  | quiet {c c' : Connection} {sh sh' : Shared} {e : List Event} :
      c'.face = c.face → c'.writer = c.writer → (∀ ev ∈ e, ev.IsChatter) → Emits sh e sh' →
      Move κ c sh e [] c' sh'
  | control {c c' : Connection} {sh sh' : Shared} {k : Control} {p : Bytes} {h : Header} :
      c.face.MayWrite k p → Header.ofControl k p.length = .ok h →
      c.writer.write h p = .ok c'.writer → c'.face = c.face → Emits sh [] sh' →
      Move κ c sh [] [(h, p)] c' sh'
  | user {c c' : Connection} {sh sh' : Shared} {h : Header} {p : Bytes} :
      c.face.Sending → MessageWellFormed (h, p) → (∃ m ch, h.kind = .user m ch) →
      c.writer.write h p = .ok c'.writer → c'.face = c.face → Emits sh [] sh' →
      Move κ c sh [] [(h, p)] c' sh'
  | enter {c c' : Connection} {sh sh' : Shared} {s : Status} {reason : String} :
      c.face.Enters κ s reason → c'.face = c.face.enter s → c'.writer = c.writer →
      Emits sh (statusNote sh c s reason) sh' → Move κ c sh (statusNote sh c s reason) [] c' sh'
  | finish {c c' : Connection} {sh sh' : Shared} {reason : String} {n : Nat} {h : Header} :
      c.face.status ≠ .disconnected → κ.Closes reason →
      Header.ofControl .disconnect (Wire.putText (Payload.disconnectReason reason n)).length = .ok h →
      c.writer.write h (Wire.putText (Payload.disconnectReason reason n)) = .ok c'.writer →
      c'.face = c.face.enter .disconnected → Emits sh (statusNote sh c .disconnected reason) sh' →
      Move κ c sh (statusNote sh c .disconnected reason)
        [(h, Wire.putText (Payload.disconnectReason reason n))] c' sh'
  | respond {c c' : Connection} {sh sh' : Shared} :
      c.face.initiator = false → c.face.status = .connecting → c.face.awaiting = false →
      c.face.responded = false → c'.face = { c.face with responded := true } →
      c'.writer = c.writer → Emits sh [] sh' → Move κ c sh [] [] c' sh'
  | approve {c c' : Connection} {sh sh' : Shared} {hail : Bytes} :
      κ = .tick → c.face.awaiting = true → c.face.decision = some (.approve hail) →
      c'.face = { c.face with awaiting := false, decision := none, localHail := hail } →
      c'.writer = c.writer → Emits sh [] sh' → Move κ c sh [] [] c' sh'
  | refuse {c c' : Connection} {sh sh' : Shared} {reason : String} {h : Header} :
      κ = .tick → c.face.awaiting = true → c.face.decision = some (.deny reason) →
      Header.ofControl .disconnect (Wire.putText reason).length = .ok h →
      c.writer.write h (Wire.putText reason) = .ok c'.writer →
      c'.face = { c.face with awaiting := false, decision := none }.close →
      Emits sh (closeNote sh c reason) sh' →
      Move κ c sh (closeNote sh c reason) [(h, Wire.putText reason)] c' sh'
  | confirm {c c' : Connection} {sh sh' : Shared} {hail : Bytes} {h : Header} :
      c.face.initiator = true → c.face.status = .connecting → κ.Responds hail →
      Header.ofControl .connectionEstablished 0 = .ok h → c.writer.write h [] = .ok c'.writer →
      c'.face = { c.face.enter .connected with remoteHail := hail } →
      Emits sh (statusNote sh c .connected "") sh' →
      Move κ c sh (statusNote sh c .connected "") [(h, [])] c' sh'
  | data {c c' : Connection} {sh sh' : Shared} {m : Delivery} {ch : Nat} {d : Bytes} :
      c.face.status ≠ .connecting → c.face.status ≠ .disconnected → c'.face = c.face →
      c'.writer = c.writer → Emits sh [dataNote c m ch d] sh' → Move κ c sh [dataNote c m ch d] [] c' sh'

inductive Path (κ : Cause) (c : Connection) (sh : Shared) :
    List Event → List (Header × Bytes) → Connection → Shared → Prop
  | refl : Path κ c sh [] [] c sh
  | snoc {c₁ c₂ : Connection} {sh₁ sh₂ : Shared} {E e : List Event} {M ms : List (Header × Bytes)} :
      Path κ c sh E M c₁ sh₁ → Move κ c₁ sh₁ e ms c₂ sh₂ → Path κ c sh (E ++ e) (M ++ ms) c₂ sh₂

theorem Move.emits {κ : Cause} {c c' : Connection} {sh sh' : Shared} {e : List Event}
    {ms : List (Header × Bytes)} (h : Move κ c sh e ms c' sh') : Emits sh e sh' := by
  cases h <;> assumption

/-! ## Local calls -/

section Call

variable {r : String} {c c' : Connection} {sh sh' : Shared} {e : List Event} {ms : List (Header × Bytes)}

theorem Face.Enters.lift {f : Face} {s : Status} {reason : String} (h : f.Enters (.call r) s reason) :
    f.Enters .tick s reason := by
  cases s with
  | connected => exact (h.2.2.2.1 : False).elim
  | disconnecting => exact ⟨h.1, trivial⟩
  | disconnected => exact ⟨h.1, trivial⟩
  | none | connecting => exact h.elim

theorem Move.lift (h : Move (.call r) c sh e ms c' sh') : Move .tick c sh e ms c' sh' := by
  cases h with
  | quiet hf hw hch he => exact .quiet hf hw hch he
  | control hm hh hw hf he => exact .control hm hh hw hf he
  | user hs hwf hk hw hf he => exact .user hs hwf hk hw hf he
  | enter hen hf hw he => exact .enter hen.lift hf hw he
  | finish hs _ hh hw hf he => exact .finish hs trivial hh hw hf he
  | respond h₁ h₂ h₃ h₄ hf hw he => exact .respond h₁ h₂ h₃ h₄ hf hw he
  | approve hκ => cases hκ
  | refuse hκ => cases hκ
  | confirm _ _ hr => exact (hr : False).elim
  | data h₁ h₂ hf hw he => exact .data h₁ h₂ hf hw he

theorem Move.call_keeps (h : Move (.call r) c sh e ms c' sh') :
    c'.face.awaiting = c.face.awaiting ∧ c'.face.decision = c.face.decision := by
  cases h with
  | quiet hf | control _ _ _ hf | user _ _ _ _ hf | data _ _ hf => rw [hf]; exact ⟨rfl, rfl⟩
  | enter _ hf | finish _ _ _ _ hf | respond _ _ _ _ hf | confirm _ _ _ _ _ hf => rw [hf]; exact ⟨rfl, rfl⟩
  | approve hκ => cases hκ
  | refuse hκ => cases hκ

end Call

namespace Path

variable {κ : Cause} {c c₁ c₂ : Connection} {sh sh₁ sh₂ : Shared} {E E' e : List Event}
  {M M' ms : List (Header × Bytes)}

theorem single (h : Move κ c sh e ms c₁ sh₁) : Path κ c sh e ms c₁ sh₁ := by
  simpa using snoc refl h

theorem trans (h₁ : Path κ c sh E M c₁ sh₁) (h₂ : Path κ c₁ sh₁ E' M' c₂ sh₂) :
    Path κ c sh (E ++ E') (M ++ M') c₂ sh₂ := by
  induction h₂ with
  | refl => simpa using h₁
  | snoc _ hm ih => simpa only [List.append_assoc] using snoc ih hm

theorem quiet {c' : Connection} {sh' : Shared} (hf : c'.face = c.face) (hw : c'.writer = c.writer)
    (hs : sh'.released = sh.released) : Path κ c sh [] [] c' sh' :=
  single (.quiet hf hw (fun _ h => by cases h) ⟨by rw [hs], by simp [hs]⟩)

theorem face_rel {R : Face → Face → Prop} (hr : ∀ f, R f f) (ht : ∀ f g k, R f g → R g k → R f k)
    (hm : ∀ {c sh e ms c' sh'}, Move κ c sh e ms c' sh' → R c.face c'.face)
    (h : Path κ c sh E M c₁ sh₁) : R c.face c₁.face := by
  induction h with
  | refl => exact hr _
  | snoc _ hmove ih => exact ht _ _ _ ih (hm hmove)

theorem emits (h : Path κ c sh E M c₁ sh₁) : Emits sh E sh₁ := by
  induction h with
  | refl => exact ⟨rfl, by simp⟩
  | snoc _ hm ih =>
    obtain ⟨he, hv⟩ := ih
    obtain ⟨he', hv'⟩ := hm.emits
    exact ⟨he'.trans he, by rw [hv', hv, List.append_assoc]⟩

theorem lift {r : String} (h : Path (.call r) c sh E M c₁ sh₁) : Path .tick c sh E M c₁ sh₁ := by
  induction h with
  | refl => exact .refl
  | snoc _ hm ih => exact .snoc ih hm.lift

theorem call_keeps {r : String} (h : Path (.call r) c sh E M c₁ sh₁) :
    c₁.face.awaiting = c.face.awaiting ∧ c₁.face.decision = c.face.decision :=
  face_rel (R := fun f g => g.awaiting = f.awaiting ∧ g.decision = f.decision) (fun _ => ⟨rfl, rfl⟩)
    (fun _ _ _ h₁ h₂ => ⟨h₂.1.trans h₁.1, h₂.2.trans h₁.2⟩) (fun hm => hm.call_keeps) h

end Path

/-! ## Runs that lead along paths -/

/-- Every successful run of `x` from a sound connection `c` gives a result `a` with `Q a`, and
`out a` is sound and reached from `c` along a path of moves for `κ`. -/
def Leads (κ : Cause) (c : Connection) (x : Step α) (out : α → Connection) (Q : α → Prop) : Prop :=
  c.Sound → ∀ sh a sh', x.run sh = .ok (a, sh') →
    Q a ∧ (out a).Sound ∧ ∃ E M, Path κ c sh E M (out a) sh'

namespace Leads

variable {α β γ : Type} {κ : Cause} {c : Connection} {x : Step α} {out : α → Connection}
  {Q R : α → Prop}

theorem pure {a : α} (hq : Q a) (hs : c.Sound → (out a).Sound)
    (hp : ∀ sh, ∃ E M, Path κ c sh E M (out a) sh) : Leads κ c (Pure.pure a : Step α) out Q := by
  intro hc sh b sh' hr
  cases hr
  exact ⟨hq, hs hc, hp sh⟩

theorem keep {a : α} (hq : Q a) (hf : (out a).face = c.face) (hw : (out a).writer = c.writer)
    (hs : c.Sound → (out a).Sound) : Leads κ c (Pure.pure a : Step α) out Q :=
  pure hq hs fun _ => ⟨_, _, .quiet hf hw rfl⟩

theorem stay {a : α} (hq : Q a) (hc : out a = c) : Leads κ c (Pure.pure a : Step α) out Q :=
  keep hq (by rw [hc]) (by rw [hc]) (fun h => hc ▸ h)

theorem bind {f : α → Step β} {out' : β → Connection} {R : β → Prop} (hx : Leads κ c x out Q)
    (hf : ∀ a, Q a → Leads κ (out a) (f a) out' R) : Leads κ c (x >>= f) out' R := by
  intro hc sh b sh' hr
  rw [StateT.run_bind] at hr
  cases hx' : x.run sh with
  | error e =>
    rw [hx'] at hr
    cases hr
  | ok p =>
    rw [hx'] at hr
    obtain ⟨hq, hs, E, M, hp⟩ := hx hc sh p.1 p.2 hx'
    obtain ⟨hr', hs', E', M', hp'⟩ := hf p.1 hq hs p.2 b sh' hr
    exact ⟨hr', hs', _, _, hp.trans hp'⟩

theorem mono (h : Leads κ c x out Q) (hq : ∀ a, Q a → R a) : Leads κ c x out R := by
  intro hc sh a sh' hr
  obtain ⟨h₁, h₂, h₃⟩ := h hc sh a sh' hr
  exact ⟨hq a h₁, h₂, h₃⟩

theorem silent (hx : ∀ sh a sh', x.run sh = .ok (a, sh') → sh'.released = sh.released) :
    Leads κ c x (fun _ => c) fun _ => True := by
  intro hc sh a sh' hr
  exact ⟨trivial, hc, _, _, .quiet rfl rfl (hx sh a sh' hr)⟩

theorem crash {e : Except Crash α} : Leads κ c (Step.crash e) (fun _ => c) fun a => e = .ok a := by
  intro hc sh a sh' hr
  cases e with
  | error err => cases hr
  | ok b =>
    cases hr
    exact ⟨rfl, hc, _, _, .refl⟩

theorem settings : Leads κ c Step.settings (fun _ => c) fun _ => True :=
  silent fun _ _ _ hr => by cases hr; rfl

theorem chatter {f : Released → Released}
    (hf : ∀ q, (f q).enabled = q.enabled ∧ ∃ e, (f q).events = q.events ++ e ∧ ∀ ev ∈ e, ev.IsChatter) :
    Leads κ c (Step.emit f) (fun _ => c) fun _ => True := by
  intro hc sh a sh' hr
  cases hr
  obtain ⟨he, e, hv, hch⟩ := hf sh.released
  exact ⟨trivial, hc, _, _, .single (.quiet rfl rfl hch ⟨he, hv⟩)⟩

theorem foldlM {f : β → γ → Step β} {out : β → Connection} {R : β → Prop} (l : List γ)
    (hf : ∀ b, ∀ a ∈ l, R b → Leads κ (out b) (f b a) out R) :
    ∀ b, R b → Leads κ (out b) (l.foldlM f b) out R := by
  induction l with
  | nil => exact fun b hb => stay hb rfl
  | cons a l ih =>
    intro b hb
    rw [List.foldlM_cons]
    exact bind (hf b a List.mem_cons_self hb) fun b' hb' =>
      ih (fun b'' a' ha' => hf b'' a' (List.mem_cons_of_mem _ ha')) b' hb'

theorem foldlM_id {f : Connection → γ → Step Connection} {R : Connection → Prop} (l : List γ)
    (hf : ∀ b, ∀ a ∈ l, R b → Leads κ b (f b a) id R) :
    ∀ b, R b → Leads κ b (l.foldlM f b) id R :=
  foldlM l hf

theorem foldlM_last {δ ε : Type} {f : δ × ε × Connection → γ → Step (δ × ε × Connection)}
    {R : δ × ε × Connection → Prop} (l : List γ)
    (hf : ∀ b, ∀ a ∈ l, R b → Leads κ b.2.2 (f b a) (·.2.2) R) :
    ∀ b, R b → Leads κ b.2.2 (l.foldlM f b) (·.2.2) R :=
  foldlM l hf

theorem pool {e : Shared → Except Crash (β × Pool)} {k : β → Step γ} {out : γ → Connection}
    {Q : γ → Prop} (hk : ∀ sh b p, e sh = .ok (b, p) → Leads κ c (k b) out Q) :
    Leads κ c (get >>= fun sh => Step.crash (e sh) >>= fun x => match x with
      | (b, pool) => set { sh with pool } >>= fun _ => k b) out Q := by
  intro hc sh a sh' hr
  change (Step.crash (e sh) >>= fun x => match x with
    | (b, pool) => set { sh with pool } >>= fun _ => k b).run sh = _ at hr
  cases he : e sh with
  | error err =>
    rw [he] at hr
    cases hr
  | ok v =>
    obtain ⟨b, p⟩ := v
    rw [he] at hr
    obtain ⟨hq, hs, E, M, hp⟩ := hk sh b p he hc _ a sh' hr
    have hpool : Path κ c sh [] [] c { sh with pool := p } := .quiet rfl rfl rfl
    exact ⟨hq, hs, E, M, by simpa using hpool.trans hp⟩

theorem after {c₁ : Connection} (h : Leads κ c₁ x out Q) (hp : ∀ sh, Path κ c sh [] [] c₁ sh)
    (hs : c.Sound → c₁.Sound) : Leads κ c x out Q := by
  intro hc sh a sh' hr
  obtain ⟨hq, hs', E, M, hp'⟩ := h (hs hc) sh a sh' hr
  exact ⟨hq, hs', _, _, by simpa using (hp sh).trans hp'⟩

theorem lift {r : String} (h : Leads (.call r) c x out Q) :
    Leads .tick c x out fun a =>
      Q a ∧ (out a).face.awaiting = c.face.awaiting ∧ (out a).face.decision = c.face.decision := by
  intro hc sh a sh' hr
  obtain ⟨hq, hs, E, M, hp⟩ := h hc sh a sh' hr
  exact ⟨⟨hq, hp.call_keeps⟩, hs, E, M, hp.lift⟩

theorem forIn_stay {l : List γ} {f : γ → PUnit → Step (ForInStep PUnit)}
    (hf : ∀ a u, Leads κ c (f a u) (fun _ => c) fun _ => True) :
    Leads κ c (forIn l PUnit.unit f) (fun _ => c) fun _ => True := by
  induction l with
  | nil => exact stay trivial rfl
  | cons a l ih =>
    rw [List.forIn_cons]
    refine bind (hf a _) fun r _ => ?_
    cases r with
    | done => exact stay trivial rfl
    | yield => exact ih

theorem assume (h : c.Sound → Leads κ c x out Q) : Leads κ c x out Q := fun hc => h hc hc

end Leads
end ReliableUdp
