import ReliableUdp.Proofs.Finishing

/-!
# What a connection does to its traffic

Every function of a connection changes its queues, owed acknowledgements, next numbers and
status only by a few acts (`Act`, `Act.Does`). An `Act.Path` is one function's acts and an
`Act.History` a whole run's.
-/

namespace ReliableUdp

/-- What the traffic of a connection is accounted by: its three queues, the acknowledgements it
owes, the next number of each type, and its status. -/
structure Traffic where
  high : List Queued
  normal : List Queued
  low : List Queued
  acks : List (Seq × Nat)
  nextSeq : Array Seq
  status : Status

namespace Traffic

def enqueue (t : Traffic) (q : Queued) : Priority → Traffic
  | .high => { t with high := t.high ++ [q] }
  | .normal => { t with normal := t.normal ++ [q] }
  | .low => { t with low := t.low ++ [q] }

def queue (t : Traffic) : Priority → List Queued
  | .high => t.high
  | .normal => t.normal
  | .low => t.low

theorem queue_enqueue (t : Traffic) (q : Queued) (p p' : Priority) :
    (t.enqueue q p').queue p = if p' = p then t.queue p ++ [q] else t.queue p := by
  cases p <;> cases p' <;> rfl

@[simp] theorem enqueue_acks (t : Traffic) (q : Queued) (p : Priority) : (t.enqueue q p).acks = t.acks := by
  cases p <;> rfl

@[simp] theorem enqueue_nextSeq (t : Traffic) (q : Queued) (p : Priority) : (t.enqueue q p).nextSeq = t.nextSeq := by
  cases p <;> rfl

@[simp] theorem enqueue_status (t : Traffic) (q : Queued) (p : Priority) : (t.enqueue q p).status = t.status := by
  cases p <;> rfl

end Traffic

def Connection.traffic (c : Connection) : Traffic :=
  ⟨c.handle.high, c.handle.normal, c.handle.low, c.receiveWindow.acks, c.sendWindow.nextSeq, c.status⟩

@[simp] theorem Connection.traffic_status (c : Connection) : c.traffic.status = c.status := rfl

@[simp] theorem Connection.traffic_acks (c : Connection) : c.traffic.acks = c.receiveWindow.acks := rfl

@[simp] theorem Connection.traffic_nextSeq (c : Connection) : c.traffic.nextSeq = c.sendWindow.nextSeq := rfl

theorem Connection.takeDatagrams_traffic (c : Connection) :
    c.takeDatagrams.2.traffic = c.traffic ∧ c.takeDatagrams.2.writer.mtu = c.writer.mtu := ⟨rfl, rfl⟩

def Header.ackEntry (h : Header) : List (Seq × Nat) :=
  match h.kind, h.seq with
  | .user m _, some sq => if m.isReliable then [(sq, h.kind.toRaw)] else []
  | _, _ => []

def Connection.takesIn (c : Connection) (h : Header) : Bool :=
  match h.kind with
  | .user _ _ => c.status != .disconnected && (c.status != .connecting || (!c.initiator && c.handshake.responseSent))
  | _ => false

theorem Connection.Drains.wellFormed {s : Settings} {now : Nat} {c c' : Connection} {os : List Outcome}
    (h : Connection.Drains s now c os c') (hp : ∀ o ∈ os, o.piece.Sendable) :
    ∀ m ∈ (Outcome.dispatches os).map Dispatch.msg, MessageWellFormed m ∧ m.1.control = none := by
  induction h with
  | nil => simp
  | held m _ _ ih => exact ih fun o ho => hp o (List.mem_cons_of_mem _ ho)
  | sent d _ hs _ ih =>
    obtain ⟨w₁, w, t, ha, hh, -, -⟩ := hs
    have hd : d.piece.Sendable := hp (.sent d) List.mem_cons_self
    intro m hm
    simp only [Outcome.dispatches_sent, List.map_cons, List.mem_cons] at hm
    rcases hm with rfl | hm
    · refine ⟨Header.ofUser_wellFormed hd (SendWindow.assign_isSome hd ha) hh, ?_⟩
      simp only [Dispatch.msg, (Header.ofUser_eq hh).1]
    · exact ih (fun o ho => hp o (List.mem_cons_of_mem _ ho)) m hm
  | regroup _ _ ih => exact ih hp

/-- One thing a connection does to its traffic. -/
inductive Act where
  | other (ms : List (Header × Bytes))
  | enter (st : Status)
  | enqueue (q : Queued) (p : Priority)
  | drain (now : Nat) (oh on ol : List Outcome)
  | flush (parts : List (List (Seq × Nat))) (acks : List (Header × Bytes))
  | close
  | intake (h : Header)

namespace Act

def sends (oh on ol : List Outcome) : List Dispatch := Outcome.dispatches (oh ++ on ++ ol)

def msgs : Act → List (Header × Bytes)
  | other ms => ms
  | enter _ => []
  | enqueue _ _ => []
  | drain _ oh on ol => (sends oh on ol).map Dispatch.msg
  | flush _ acks => acks
  | close => []
  | intake _ => []

def entries : Act → List (Seq × Nat)
  | intake h => h.ackEntry
  | _ => []

def enqueued : Act → List (Queued × Priority)
  | enqueue q p => [(q, p)]
  | _ => []

def Own : Act → Prop
  | enqueue _ _ | intake _ => False
  | _ => True

theorem flatMap_entries_of_own {as : List Act} (h : ∀ a ∈ as, a.Own) : as.flatMap entries = [] := by
  induction as with
  | nil => rfl
  | cons a as ih =>
    have ha := h a List.mem_cons_self
    rw [List.flatMap_cons, ih fun b hb => h b (List.mem_cons_of_mem _ hb)]
    cases a <;> simp_all [Own, entries]

theorem flatMap_enqueued_of_own {as : List Act} (h : ∀ a ∈ as, a.Own) : as.flatMap enqueued = [] := by
  induction as with
  | nil => rfl
  | cons a as ih =>
    have ha := h a List.mem_cons_self
    rw [List.flatMap_cons, ih fun b hb => h b (List.mem_cons_of_mem _ hb)]
    cases a <;> simp_all [Own, enqueued]

def ackChunk (mtu : Nat) : Nat := (mtu - Header.maxLen) / Payload.ackEntryLen

/-- What the act does from `c` to `c'` under the settings `s`. -/
def Does (s : Settings) : Act → Connection → Connection → Prop
  | other ms, c, c' => Datagram.Writer.Writes c.writer ms c'.writer ∧
      (∀ m ∈ ms, MessageWellFormed m ∧ m.1.control ≠ some .acknowledge) ∧ c'.traffic = c.traffic
  | enter st, c, c' => c.status ≠ .disconnected ∧ st ≠ .disconnected ∧ c'.writer = c.writer ∧
      c'.traffic = { c.traffic with status := st }
  | enqueue q p, c, c' => q.Sendable ∧ q.fragment = none ∧ c'.writer = c.writer ∧
      c'.traffic = c.traffic.enqueue q p
  | drain now oh on ol, c, c' => (c.status = .connected ∨ c.status = .disconnecting) ∧
      Queued.Expands s.maxPayload c.handle.high (oh.map Outcome.piece) ∧
      Queued.Expands s.maxPayload c.handle.normal (on.map Outcome.piece) ∧
      Queued.Expands s.maxPayload c.handle.low (ol.map Outcome.piece) ∧
      (∀ o ∈ oh ++ on ++ ol, o.piece.Sendable) ∧
      ∃ c₁, Connection.Drains s now { c with
          throttle := c.throttle.update now s.throttleRate
          handle := { c.handle with high := [], normal := [], low := [] } } (oh ++ on ++ ol) c₁ ∧
        c' = { c₁ with handle := { c₁.handle with
          high := Outcome.heldBack oh, normal := Outcome.heldBack on, low := Outcome.heldBack ol } }
  | flush parts acks, c, c' => c.receiveWindow.acks ≠ [] ∧
      parts = Connection.chunks (ackChunk c.writer.mtu) c.receiveWindow.acks ∧
      List.Forall₂ Connection.Acknowledges parts acks ∧ Datagram.Writer.Writes c.writer acks c'.writer ∧
      c'.traffic = { c.traffic with acks := [] }
  | close, c, c' => c.status ≠ .disconnected ∧ c'.writer = c.writer ∧
      c'.traffic = { c.traffic with
        high := [], normal := [], low := [], acks := [], status := .disconnected }
  | intake h, c, c' => c.status ≠ .disconnected ∧ c'.writer = c.writer ∧
      (∀ e ∈ h.ackEntry, e.2 < Kind.count) ∧
      c'.traffic = { c.traffic with acks := c.receiveWindow.acks ++ h.ackEntry }

variable {s : Settings} {a : Act} {c c' : Connection}

theorem Does.writes (h : a.Does s c c') : Datagram.Writer.Writes c.writer a.msgs c'.writer := by
  cases a with
  | other ms => exact h.1
  | enter st => rw [msgs, h.2.2.1]; exact .nil _
  | enqueue q p => rw [msgs, h.2.2.1]; exact .nil _
  | drain now oh on ol =>
    obtain ⟨-, -, -, -, -, c₁, hd, rfl⟩ := h
    exact hd.writes
  | flush parts acks => exact h.2.2.2.1
  | close => rw [msgs, h.2.1]; exact .nil _
  | intake h' => rw [msgs, h.2.1]; exact .nil _

theorem Does.wellFormed (h : a.Does s c c') : ∀ m ∈ a.msgs, MessageWellFormed m := by
  cases a with
  | other ms => exact fun m hm => (h.2.1 m hm).1
  | drain now oh on ol =>
    obtain ⟨-, -, -, -, hp, c₁, hd, -⟩ := h
    exact fun m hm => (hd.wellFormed hp m hm).1
  | flush parts acks =>
    intro m hm
    obtain ⟨es, hh, hp⟩ := Connection.Acknowledges.of_forall₂ h.2.2.1 m hm
    obtain ⟨hd, hm'⟩ := m
    dsimp only at hh hp
    subst hp
    exact Header.ofControl_wellFormed hh
  | enter | enqueue | close | intake => simp [msgs]

def status : Act → Status → Status
  | enter st, _ => st
  | close, _ => .disconnected
  | _, st => st

def owed : Act → List (Seq × Nat) → List (Seq × Nat)
  | flush _ _, _ | close, _ => []
  | intake h, w => w ++ h.ackEntry
  | _, w => w

theorem Does.status (h : a.Does s c c') : c'.status = a.status c.status := by
  cases a with
  | drain now oh on ol =>
    obtain ⟨-, -, -, -, -, c₁, hd, rfl⟩ := h
    exact hd.frame.2.1
  | other ms => simpa [status] using congrArg Traffic.status h.2.2
  | enter st => simpa [status] using congrArg Traffic.status h.2.2.2
  | enqueue q p => simpa [status] using congrArg Traffic.status h.2.2.2
  | flush parts acks => simpa [status] using congrArg Traffic.status h.2.2.2.2
  | close => simpa [status] using congrArg Traffic.status h.2.2
  | intake h' => simpa [status] using congrArg Traffic.status h.2.2.2

theorem Does.acks (h : a.Does s c c') : c'.receiveWindow.acks = a.owed c.receiveWindow.acks := by
  cases a with
  | drain now oh on ol =>
    obtain ⟨-, -, -, -, -, c₁, hd, rfl⟩ := h
    exact congrArg ReceiveWindow.acks hd.frame.2.2
  | other ms => simpa [owed] using congrArg Traffic.acks h.2.2
  | enter st => simpa [owed] using congrArg Traffic.acks h.2.2.2
  | enqueue q p => simpa [owed] using congrArg Traffic.acks h.2.2.2
  | flush parts acks => simpa [owed] using congrArg Traffic.acks h.2.2.2.2
  | close => simpa [owed] using congrArg Traffic.acks h.2.2
  | intake h' => simpa [owed] using congrArg Traffic.acks h.2.2.2

inductive Path (s : Settings) : Connection → List Act → Connection → Prop
  | nil (c : Connection) : Path s c [] c
  | cons {c c₁ c' : Connection} {a : Act} {as : List Act} :
      a.Does s c c₁ → Path s c₁ as c' → Path s c (a :: as) c'

namespace Path

variable {s : Settings} {c c₁ c' : Connection} {a : Act} {as as' : List Act}

theorem single (h : a.Does s c c') : Path s c [a] c' := .cons h (.nil _)

theorem append (h₁ : Path s c as c₁) (h₂ : Path s c₁ as' c') : Path s c (as ++ as') c' := by
  induction h₁ with
  | nil => exact h₂
  | cons ha _ ih => exact .cons ha (ih h₂)

theorem writes (h : Path s c as c') :
    Datagram.Writer.Writes c.writer (as.flatMap Act.msgs) c'.writer := by
  induction h with
  | nil => exact .nil _
  | cons ha _ ih => exact ha.writes.append ih

theorem wellFormed (h : Path s c as c') : ∀ m ∈ as.flatMap Act.msgs, MessageWellFormed m := by
  induction h with
  | nil => simp
  | cons ha _ ih =>
    intro m hm
    rcases List.mem_append.1 hm with hm | hm
    · exact ha.wellFormed m hm
    · exact ih m hm

theorem rebase (hw : c₁.writer = c.writer) (ht : c₁.traffic = c.traffic) (h : Path s c₁ as c') :
    Path s c (.other [] :: as) c' :=
  .cons ⟨hw ▸ .nil _, (fun _ hm => by cases hm), ht⟩ h

end Path

/-- The acts of a run, one after the other, with the written datagrams taken between them. -/
inductive History (s : Settings) : Connection → List Act → Connection → Prop
  | nil (c : Connection) : History s c [] c
  | act {c c₁ c' : Connection} {a : Act} {as : List Act} :
      a.Does s c c₁ → History s c₁ as c' → History s c (a :: as) c'
  | take {c c' : Connection} {as : List Act} :
      History s c.takeDatagrams.2 as c' → History s c as c'

namespace History

variable {s : Settings} {c c₁ c' : Connection} {as as' : List Act}

theorem append (h₁ : History s c as c₁) (h₂ : History s c₁ as' c') : History s c (as ++ as') c' := by
  induction h₁ with
  | nil => exact h₂
  | act ha _ ih => exact .act ha (ih h₂)
  | take _ ih => exact .take (ih h₂)

theorem of_path (h : Path s c as c') : History s c as c' := by
  induction h with
  | nil => exact .nil _
  | cons ha _ ih => exact .act ha ih

end History
end Act

def Step.Acts (s : Settings) (c : Connection) (x : Step Connection) : Prop :=
  Step.Under s x fun c' => ∃ as, Act.Path s c as c' ∧ ∀ a ∈ as, a.Own

namespace Step.Acts

variable {s : Settings} {c : Connection} {x : Step Connection} {P : Connection → Prop}

theorem stay : Acts s c (pure c) := Under.pure ⟨[], .nil c, by simp⟩

theorem of_does {a : Act} (ha : a.Own) (hx : Under s x (a.Does s c)) : Acts s c x :=
  hx.mono fun _ h => ⟨[a], .single h, by simpa using ha⟩

theorem bind {f : Connection → Step Connection}
    (hx : Under s x fun c₁ => (∃ as, Act.Path s c as c₁ ∧ ∀ a ∈ as, a.Own) ∧ P c₁)
    (hf : ∀ c₁, P c₁ → Acts s c₁ (f c₁)) : Acts s c (x >>= f) :=
  Under.bind hx fun c₁ ⟨⟨as, hp, ho⟩, hP⟩ => (hf c₁ hP).mono fun _ ⟨as', hp', ho'⟩ =>
    ⟨as ++ as', hp.append hp', fun a ha => (List.mem_append.1 ha).elim (ho a) (ho' a)⟩

theorem rebase {c₁ : Connection} (h : Acts s c₁ x) (hw : c₁.writer = c.writer)
    (ht : c₁.traffic = c.traffic) : Acts s c x :=
  h.mono fun _ ⟨_, hp, ho⟩ => ⟨_, hp.rebase hw ht, fun a ha => (List.mem_cons.1 ha).elim (fun he => he ▸ trivial) (ho a)⟩

end Step.Acts
end ReliableUdp
