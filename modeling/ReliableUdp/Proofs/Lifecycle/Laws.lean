import ReliableUdp.Proofs.Lifecycle.Moves
import Mathlib.Logic.Relation

/-!
# Laws along the moves of a connection

What one move does to the face is one of six steps (`Face.Step`), and each law is proved once
per step and carried along paths: the status climbs, hails stay, Disconnect goes out only as
the connection closes, and nothing passes the approval gate.
-/

namespace ReliableUdp

/-- The order statuses follow: a connection never goes back. -/
def Status.rank : Status → Nat
  | .none => 0
  | .connecting => 1
  | .connected => 2
  | .disconnecting => 3
  | .disconnected => 4

theorem Status.rank_le_disconnected (s : Status) : s.rank ≤ Status.disconnected.rank := by
  cases s <;> decide

theorem Status.eq_disconnected_of_rank {s : Status} (h : Status.disconnected.rank ≤ s.rank) :
    s = .disconnected := by
  cases s <;> simp_all [Status.rank]

def Cause.Connects (κ : Cause) : Prop := κ.Confirms ∨ ∃ hail, κ.Responds hail

def Cause.Explains (κ : Cause) : Status → String → Prop
  | .connected, r => κ.Connects ∧ r = ""
  | .disconnecting, r => κ.Lingers r
  | .disconnected, r => κ.Closes r
  | _, _ => False

namespace Cause

variable {κ : Cause} {r : String}

theorem Connects.not_closes (h : κ.Connects) : ¬κ.Closes r := by
  cases κ with
  | tick => exact (h.elim id fun ⟨_, h⟩ => h).elim
  | call => exact (h.elim id fun ⟨_, h⟩ => h).elim
  | message m p =>
    rintro ⟨hk, hd, -⟩
    rcases h with (⟨-, hc⟩ | ⟨u, ch, hu⟩) | ⟨_, -, hc, -⟩
    · rw [hc] at hd
      cases hd
    · rw [hu] at hk
      cases hk
    · rw [hc] at hd
      cases hd

theorem Connects.not_lingers (h : κ.Connects) : ¬κ.Lingers r := by
  cases κ with
  | tick => exact (h.elim id fun ⟨_, h⟩ => h).elim
  | call => exact (h.elim id fun ⟨_, h⟩ => h).elim
  | message => exact id

end Cause

namespace Face

variable {κ : Cause} {f g : Face}

@[simp] theorem enter_status (f : Face) (s : Status) : (f.enter s).status = s := rfl

@[simp] theorem enter_shown (f : Face) (s : Status) : (f.enter s).shown = s := rfl

@[simp] theorem enter_initiator (f : Face) (s : Status) : (f.enter s).initiator = f.initiator := rfl

@[simp] theorem enter_awaiting (f : Face) (s : Status) : (f.enter s).awaiting = f.awaiting := rfl

@[simp] theorem enter_responded (f : Face) (s : Status) : (f.enter s).responded = f.responded := rfl

@[simp] theorem enter_localHail (f : Face) (s : Status) : (f.enter s).localHail = f.localHail := rfl

@[simp] theorem enter_remoteHail (f : Face) (s : Status) : (f.enter s).remoteHail = f.remoteHail := rfl

@[simp] theorem close_initiator (f : Face) : f.close.initiator = f.initiator := by
  unfold close; split <;> rfl

@[simp] theorem close_awaiting (f : Face) : f.close.awaiting = f.awaiting := by
  unfold close; split <;> rfl

@[simp] theorem close_responded (f : Face) : f.close.responded = f.responded := by
  unfold close; split <;> rfl

@[simp] theorem close_localHail (f : Face) : f.close.localHail = f.localHail := by
  unfold close; split <;> rfl

@[simp] theorem close_remoteHail (f : Face) : f.close.remoteHail = f.remoteHail := by
  unfold close; split <;> rfl

theorem close_shown {f : Face} (h : f.shown = f.status) : f.close.shown = f.close.status := by
  unfold close; split <;> simp_all [enter]

theorem Enters.rank_lt {s : Status} {r : String} (h : f.Enters κ s r) : f.status.rank < s.rank := by
  cases s with
  | connected => rw [h.1]; decide
  | disconnecting => rw [h.1]; decide
  | disconnected =>
    have := h.1
    cases hs : f.status <;> simp_all [Status.rank]
  | none | connecting => exact h.elim

theorem Enters.explains {s : Status} {r : String} (h : f.Enters κ s r) : κ.Explains s r := by
  cases s with
  | connected => exact ⟨.inl h.2.2.2.1, h.2.2.2.2⟩
  | disconnecting => exact h.2
  | disconnected => exact h.2
  | none | connecting => exact h.elim

/-- What one move does to the face: nothing, enter a status, start responding, apply an
approval or a denial, or take a ConnectResponse. -/
inductive Step (κ : Cause) : Face → Face → Prop
  | stay (f : Face) : Step κ f f
  | enter {f : Face} {s : Status} {r : String} : f.Enters κ s r → Step κ f (f.enter s)
  | respond {f : Face} : f.initiator = false → f.status = .connecting → f.awaiting = false →
      f.responded = false → Step κ f { f with responded := true }
  | approve {f : Face} {hail : Bytes} : κ = .tick → f.awaiting = true →
      f.decision = some (.approve hail) →
      Step κ f { f with awaiting := false, decision := none, localHail := hail }
  | refuse {f : Face} {r : String} : κ = .tick → f.awaiting = true → f.decision = some (.deny r) →
      Step κ f { f with awaiting := false, decision := none }.close
  | confirm {f : Face} {hail : Bytes} : f.initiator = true → f.status = .connecting →
      κ.Responds hail → Step κ f { f.enter .connected with remoteHail := hail }

end Face

theorem Move.face_step {κ : Cause} {c c' : Connection} {sh sh' : Shared} {e : List Event}
    {ms : List (Header × Bytes)} (h : Move κ c sh e ms c' sh') : Face.Step κ c.face c'.face := by
  cases h with
  | quiet hf | control _ _ _ hf | user _ _ _ _ hf | data _ _ hf => rw [hf]; exact .stay _
  | enter hen hf => rw [hf]; exact .enter hen
  | finish hs hc _ _ hf => rw [hf]; exact .enter ⟨hs, hc⟩
  | respond h₁ h₂ h₃ h₄ hf => rw [hf]; exact .respond h₁ h₂ h₃ h₄
  | approve hκ ha hd hf => rw [hf]; exact .approve hκ ha hd
  | refuse hκ ha hd _ _ hf => rw [hf]; exact .refuse hκ ha hd
  | confirm h₁ h₂ hr _ _ hf => rw [hf]; exact .confirm h₁ h₂ hr

/-- An incoming connection waiting for the application's decision, or closed while it waited:
it has not responded. -/
structure Face.Waiting (f : Face) : Prop where
  acceptor : f.initiator = false
  responded : f.responded = false
  waiting : (f.status = .connecting ∧ f.awaiting = true) ∨ f.status = .disconnected

structure Face.Gated (f : Face) (κ : Cause) : Prop extends Face.Waiting f where
  unapproved : ¬(κ = .tick ∧ f.awaiting = true ∧ ∃ hail, f.decision = some (.approve hail))

namespace Face.Step

variable {κ : Cause} {f g : Face}

theorem rank_le (h : Face.Step κ f g) : f.status.rank ≤ g.status.rank := by
  cases h with
  | stay | respond | approve => exact Nat.le_refl _
  | enter he => exact Nat.le_of_lt he.rank_lt
  | refuse => rw [close_status]; exact Status.rank_le_disconnected _
  | confirm _ hst => simp [hst, Status.rank]

theorem initiator_eq (h : Face.Step κ f g) : g.initiator = f.initiator := by
  cases h <;> simp

theorem shown (h : Face.Step κ f g) (hf : f.shown = f.status) : g.shown = g.status := by
  cases h with
  | stay | respond | approve => exact hf
  | enter | confirm => rfl
  | refuse => exact close_shown hf

theorem awaiting_of (h : Face.Step κ f g) (hg : g.awaiting = true) : f.awaiting = true := by
  cases h <;> simp_all

theorem responded_of (h : Face.Step κ f g) (hf : f.responded = true) : g.responded = true := by
  cases h <;> simp_all

theorem settled (h : Face.Step κ f g) (hf : f.responded = true → f.awaiting = false) :
    g.responded = true → g.awaiting = false := by
  cases h <;> simp_all

theorem localHail_eq (h : Face.Step κ f g) (hf : f.awaiting = false) :
    g.awaiting = false ∧ g.localHail = f.localHail := by
  cases h <;> simp_all

theorem remoteHail_eq (h : Face.Step κ f g) (hf : f.status ≠ .connecting) :
    g.status ≠ .connecting ∧ g.remoteHail = f.remoteHail := by
  cases h with
  | stay | respond | approve => exact ⟨hf, rfl⟩
  | @enter s _ he =>
    refine ⟨fun hs => ?_, rfl⟩
    cases s <;> first | exact he.elim | cases hs
  | refuse => exact ⟨by simp, by simp⟩
  | confirm _ hst => exact absurd hst hf

theorem remoteHail_of_acceptor (h : Face.Step κ f g) (hf : f.initiator = false) :
    g.remoteHail = f.remoteHail := by
  cases h with
  | confirm hi => rw [hf] at hi; cases hi
  | refuse => simp
  | stay | enter | respond | approve => rfl

theorem sending_of (h : Face.Step κ f g) (hκ : ¬κ.Connects) :
    (g.status = .connected → f.status = .connected) ∧ (g.Sending → f.Sending) := by
  cases h with
  | stay | respond | approve => exact ⟨fun h => h, fun h => h⟩
  | @enter s _ he =>
    cases s with
    | connected => exact absurd (.inl he.2.2.2.1) hκ
    | disconnecting => exact ⟨fun h => (by cases h), fun _ => .inl he.1⟩
    | disconnected => exact ⟨fun h => (by cases h), fun h => (by rcases h with h | h <;> cases h)⟩
    | none | connecting => exact he.elim
  | refuse =>
    simp only [Sending, close_status, reduceCtorEq, false_or, IsEmpty.forall_iff, and_self]
  | confirm _ _ hr => exact absurd (.inr ⟨_, hr⟩) hκ

theorem connected_of (h : Face.Step κ f g) (hκ : κ.Connects) :
    (f.status = .connected → g.status = .connected) ∧
      (g.status = .disconnecting → f.status = .disconnecting) := by
  cases h with
  | stay | respond | approve => exact ⟨fun h => h, fun h => h⟩
  | @enter s _ he =>
    cases s with
    | connected => exact ⟨fun _ => rfl, fun h => (by cases h)⟩
    | disconnecting => exact absurd he.2 hκ.not_lingers
    | disconnected => exact absurd he.2 hκ.not_closes
    | none | connecting => exact he.elim
  | refuse hκ' => exact absurd hκ (by rw [hκ']; exact fun h => h.elim (fun h => h) fun ⟨_, h⟩ => h)
  | confirm _ hst => exact ⟨fun h => absurd (hst.symm.trans h) (by decide), fun h => (by cases h)⟩

theorem connects (h : Face.Step κ f g) (hf : f.status ≠ .connected) (hg : g.status = .connected) :
    (f.initiator = false ∧ κ.Confirms) ∨
      (f.initiator = true ∧ ∃ hail, κ.Responds hail ∧ g.remoteHail = hail) := by
  cases h with
  | stay | respond | approve => exact absurd hg hf
  | @enter s _ he =>
    cases s with
    | connected => exact .inl ⟨he.2.1, he.2.2.2.1⟩
    | disconnecting | disconnected => cases hg
    | none | connecting => exact he.elim
  | refuse => simp at hg
  | confirm hi _ hr => exact .inr ⟨hi, _, hr, rfl⟩

theorem gated (h : Face.Step κ f g) (hf : f.Gated κ) : g.Gated κ := by
  obtain ⟨⟨hi, hr, hw⟩, hno⟩ := hf
  cases h with
  | stay => exact ⟨⟨hi, hr, hw⟩, hno⟩
  | @enter s _ he =>
    cases s with
    | connected => exact absurd he.2.2.1 (by rw [hr]; decide)
    | disconnecting => rcases hw with ⟨hc, -⟩ | hc <;> rw [he.1] at hc <;> cases hc
    | disconnected => exact ⟨⟨hi, hr, .inr rfl⟩, hno⟩
    | none | connecting => exact he.elim
  | respond _ hc ha => rcases hw with ⟨-, ha'⟩ | hc' <;> simp_all
  | approve hκ ha hd => exact absurd ⟨hκ, ha, _, hd⟩ hno
  | refuse => exact ⟨⟨by simpa using hi, by simpa using hr, .inr (close_status _)⟩, by simp⟩
  | confirm hi' => rw [hi] at hi'; cases hi'

end Face.Step

theorem Face.trace_rel {κ : Cause} {f g : Face} {R : Face → Face → Prop} (hr : ∀ f, R f f)
    (ht : ∀ f g k, R f g → R g k → R f k) (hs : ∀ f g, Face.Step κ f g → R f g)
    (h : Relation.ReflTransGen (Face.Step κ) f g) : R f g := by
  induction h with
  | refl => exact hr _
  | tail _ hstep ih => exact ht _ _ _ ih (hs _ _ hstep)

namespace Face

open Relation

variable {κ : Cause} {f g : Face}

/-! ## Along a trace of the face -/

theorem rank_le_of_trace (h : ReflTransGen (Step κ) f g) : f.status.rank ≤ g.status.rank :=
  trace_rel (R := fun f g => f.status.rank ≤ g.status.rank) (fun _ => Nat.le_refl _)
    (fun _ _ _ => Nat.le_trans) (fun _ _ hs => hs.rank_le) h

theorem initiator_eq_of_trace (h : ReflTransGen (Step κ) f g) : g.initiator = f.initiator :=
  trace_rel (R := fun f g => g.initiator = f.initiator) (fun _ => rfl)
    (fun _ _ _ h₁ h₂ => h₂.trans h₁) (fun _ _ hs => hs.initiator_eq) h

theorem localHail_of_trace (h : ReflTransGen (Step κ) f g) (hf : f.awaiting = false) :
    g.awaiting = false ∧ g.localHail = f.localHail :=
  trace_rel (R := fun f g => f.awaiting = false → g.awaiting = false ∧ g.localHail = f.localHail)
    (fun _ h => ⟨h, rfl⟩)
    (fun _ _ _ h₁ h₂ hf => ⟨(h₂ (h₁ hf).1).1, (h₂ (h₁ hf).1).2.trans (h₁ hf).2⟩)
    (fun _ _ hs => hs.localHail_eq) h hf

theorem holds_of_trace {P : Face → Prop} (hs : ∀ f g, Step κ f g → P f → P g)
    (h : ReflTransGen (Step κ) f g) (hf : P f) : P g :=
  trace_rel (R := fun f g => P f → P g) (fun _ h => h) (fun _ _ _ h₁ h₂ => h₂ ∘ h₁) hs h hf

theorem remoteHail_eq_of_trace (h : ReflTransGen (Step κ) f g) (hf : f.status ≠ .connecting) :
    g.remoteHail = f.remoteHail :=
  (trace_rel (R := fun f g => f.status ≠ .connecting → g.status ≠ .connecting ∧ g.remoteHail = f.remoteHail)
    (fun _ h => ⟨h, rfl⟩)
    (fun _ _ _ h₁ h₂ hf => ⟨(h₂ (h₁ hf).1).1, (h₂ (h₁ hf).1).2.trans (h₁ hf).2⟩)
    (fun _ _ hs => hs.remoteHail_eq) h hf).2

theorem sending_of_trace (h : ReflTransGen (Step κ) f g) (hκ : ¬κ.Connects) :
    (g.status = .connected → f.status = .connected) ∧ (g.Sending → f.Sending) :=
  trace_rel (R := fun f g => (g.status = .connected → f.status = .connected) ∧ (g.Sending → f.Sending))
    (fun _ => ⟨fun h => h, fun h => h⟩) (fun _ _ _ h₁ h₂ => ⟨h₁.1 ∘ h₂.1, h₁.2 ∘ h₂.2⟩)
    (fun _ _ hs => hs.sending_of hκ) h

theorem connected_of_trace (h : ReflTransGen (Step κ) f g) (hκ : κ.Connects) :
    (f.status = .connected → g.status = .connected) ∧
      (g.status = .disconnecting → f.status = .disconnecting) :=
  trace_rel (R := fun f g => (f.status = .connected → g.status = .connected) ∧
      (g.status = .disconnecting → f.status = .disconnecting))
    (fun _ => ⟨fun h => h, fun h => h⟩) (fun _ _ _ h₁ h₂ => ⟨h₂.1 ∘ h₁.1, h₁.2 ∘ h₂.2⟩)
    (fun _ _ hs => hs.connected_of hκ) h

theorem sending_of_disconnecting (h : ReflTransGen (Step κ) f g) (hg : g.status = .disconnecting) :
    f.Sending := by
  by_cases hκ : κ.Connects
  · exact .inr ((connected_of_trace h hκ).2 hg)
  · exact (sending_of_trace h hκ).2 (.inr hg)

theorem connects_of_trace (h : ReflTransGen (Step κ) f g) (hf : f.status ≠ .connected)
    (hg : g.status = .connected) :
    (f.initiator = false ∧ κ.Confirms) ∨
      (f.initiator = true ∧ ∃ hail, κ.Responds hail ∧ g.remoteHail = hail) := by
  induction h with
  | refl => exact absurd hg hf
  | @tail g₁ g _ hstep ih =>
    by_cases h₁ : g₁.status = .connected
    · -- connected before this step: the step keeps the remote hail
      rcases ih h₁ with h | ⟨hi, hail, hr, hh⟩
      · exact .inl h
      · have := (hstep.remoteHail_eq (by rw [h₁]; decide)).2
        exact .inr ⟨hi, hail, hr, this.trans hh⟩
    · rcases hstep.connects h₁ hg with ⟨hi, hc⟩ | ⟨hi, hr⟩
      · exact .inl ⟨(initiator_eq_of_trace ‹_›).symm.trans hi, hc⟩
      · exact .inr ⟨(initiator_eq_of_trace ‹_›).symm.trans hi, hr⟩

end Face

theorem Face.Enters.ne_disconnected {κ : Cause} {f : Face} {s : Status} {r : String}
    (h : f.Enters κ s r) : f.status ≠ .disconnected := fun hd => by
  have := h.rank_lt
  rw [hd] at this
  exact absurd (Nat.lt_of_lt_of_le this (Status.rank_le_disconnected s)) (Nat.lt_irrefl _)

theorem Face.MayWrite.ne_disconnected {f : Face} {k : Control} {p : Bytes} (h : f.MayWrite k p) :
    f.status ≠ .disconnected := by
  cases k with
  | connect => rw [h.2.1]; decide
  | connectResponse => rw [h.2.1]; decide
  | connectionEstablished => rw [h.2]; decide
  | disconnect => exact h.elim
  | keepAlive | ping | pong | acknowledge | discovery | discoveryResponse => exact h

def IsControl (k : Control) (m : Header × Bytes) : Prop :=
  m.1.kind = .control ∧ m.1.control = some k

def Event.IsData (e : Event) : Prop := ∃ m ch, e.kind = .data m ch

/-! ## Status events -/

def Event.note? (e : Event) : Option (Status × String) :=
  match e.kind with
  | .status s r => some (s, r)
  | _ => none

def notes (E : List Event) : List (Status × String) := E.filterMap Event.note?

@[simp] theorem notes_nil : notes [] = [] := rfl

@[simp] theorem notes_append (E E' : List Event) : notes (E ++ E') = notes E ++ notes E' :=
  List.filterMap_append

theorem notes_chatter {e : List Event} (h : ∀ ev ∈ e, ev.IsChatter) : notes e = [] := by
  refine List.filterMap_eq_nil_iff.2 fun ev hev => ?_
  have := h ev hev
  unfold Event.IsChatter at this
  unfold Event.note?
  split <;> simp_all

theorem notes_statusNote {sh : Shared} (c : Connection) (s : Status) (r : String)
    (hon : Notify.has sh.released.enabled Notify.status = true) :
    notes (statusNote sh c s r) = [(s, r)] := by
  simp [statusNote, hon, notes, Event.note?]

theorem not_data_of_statusNote {sh : Shared} {c : Connection} {s : Status} {r : String} {ev : Event}
    (hev : ev ∈ statusNote sh c s r) : ¬ev.IsData := by
  unfold statusNote at hev
  split at hev
  · obtain rfl := List.mem_singleton.1 hev
    rintro ⟨_, _, hk⟩
    cases hk
  · cases hev

/-- `ns` are the statuses entered going from `a` to `b`: strictly up and so each once, each
with a reason `R` allows; `b` is the last unless nothing was entered. -/
inductive Climb (R : Status → String → Prop) : Status → List (Status × String) → Status → Prop
  | refl (a : Status) : Climb R a [] a
  | step {a b s : Status} {ns : List (Status × String)} {r : String} :
      Climb R a ns b → b.rank < s.rank → R s r → Climb R a (ns ++ [(s, r)]) s

namespace Climb

variable {R R' : Status → String → Prop} {a b d s : Status} {ns ns' : List (Status × String)}

theorem single {r : String} (hlt : a.rank < s.rank) (hr : R s r) : Climb R a [(s, r)] s := by
  simpa using (refl a).step hlt hr

theorem trans (h₁ : Climb R a ns b) (h₂ : Climb R b ns' d) : Climb R a (ns ++ ns') d := by
  induction h₂ with
  | refl => simpa using h₁
  | step _ hlt hr ih => simpa only [List.append_assoc] using ih.step hlt hr

theorem mono (h : Climb R a ns b) (hR : ∀ s r, R s r → R' s r) : Climb R' a ns b := by
  induction h with
  | refl => exact refl _
  | step _ hlt hr ih => exact ih.step hlt (hR _ _ hr)

end Climb

namespace Move

variable {κ : Cause} {c c' : Connection} {sh sh' : Shared} {e : List Event}
  {ms : List (Header × Bytes)}

theorem climb (h : Move κ c sh e ms c' sh') (hon : Notify.has sh.released.enabled Notify.status = true) :
    Climb κ.Explains c.status (notes e) c'.status := by
  have hsame : c'.face.status = c.face.status → Climb κ.Explains c.status [] c'.status :=
    fun hs => (show c'.status = c.status from hs) ▸ .refl _
  cases h with
  | quiet hf _ hch => rw [notes_chatter hch]; exact hsame (by rw [hf])
  | control _ _ _ hf | user _ _ _ _ hf | respond _ _ _ _ hf | approve _ _ _ hf => exact hsame (by rw [hf])
  | data _ _ hf => exact hsame (by rw [hf])
  | enter he hf =>
    rw [notes_statusNote _ _ _ hon]
    exact (show c'.status = _ from congrArg Face.status hf) ▸ .single he.rank_lt he.explains
  | finish hs hc _ _ hf =>
    rw [notes_statusNote _ _ _ hon]
    have he : c.face.Enters κ .disconnected _ := ⟨hs, hc⟩
    exact (show c'.status = _ from congrArg Face.status hf) ▸ .single he.rank_lt he.explains
  | refuse hκ _ _ _ _ hf =>
    have hd : c'.face.status = .disconnected := by rw [hf]; exact Face.close_status _
    by_cases hc : c.status = .disconnected
    · rw [closeNote, if_pos hc]
      exact hsame (hd.trans hc.symm)
    · rw [closeNote, if_neg hc, notes_statusNote _ _ _ hon, show c'.status = _ from hd, hκ]
      refine .single ?_ trivial
      cases hs : c.status <;> simp_all [Status.rank]
  | confirm _ hst hr _ _ hf =>
    rw [notes_statusNote _ _ _ hon]
    have hc : c'.face.status = .connected := by rw [hf]; rfl
    rw [show c'.status = .connected from hc, show c.status = .connecting from hst]
    exact .single (by decide) ⟨.inr ⟨_, hr⟩, rfl⟩

theorem writes_one (h : Move κ c sh e ms c' sh') : ms = [] ∨ ∃ m, ms = [m] := by
  cases h <;> simp

theorem writes (h : Move κ c sh e ms c' sh') :
    Datagram.Writer.Writes c.writer ms c'.writer ∧ ∀ m ∈ ms, MessageWellFormed m := by
  cases h with
  | quiet _ hw | enter _ _ hw | respond _ _ _ _ _ hw | approve _ _ _ _ hw | data _ _ _ hw =>
    exact ⟨hw ▸ .nil _, by simp⟩
  | control _ hh hw => exact ⟨.single hw, by simpa using Header.ofControl_wellFormed hh⟩
  | user _ hwf _ hw => exact ⟨.single hw, by simpa using hwf⟩
  | finish _ _ hh hw | refuse _ _ _ hh hw | confirm _ _ _ hh hw =>
    exact ⟨.single hw, by simpa using Header.ofControl_wellFormed hh⟩

/-! ### What a move writes -/

variable {m : Header × Bytes}

theorem control_cases {k : Control} (h : Move κ c sh e ms c' sh') (hm : m ∈ ms) (hk : IsControl k m) :
    (c.face.MayWrite k m.2 ∧ c'.face = c.face) ∨ (k = .disconnect ∧ c'.face.status = .disconnected) ∨
      (k = .connectionEstablished ∧ c'.face.status = .connected) := by
  cases h with
  | quiet | enter | respond | approve | data => cases hm
  | control hw hh _ hf =>
    obtain rfl := List.mem_singleton.1 hm
    obtain ⟨rfl, -⟩ := Header.ofControl_eq hh
    cases hk.2
    exact .inl ⟨hw, hf⟩
  | user _ _ hu =>
    obtain rfl := List.mem_singleton.1 hm
    obtain ⟨_, _, hu⟩ := hu
    exact absurd (hu.symm.trans hk.1) (by simp)
  | finish _ _ hh _ hf =>
    obtain rfl := List.mem_singleton.1 hm
    obtain ⟨rfl, -⟩ := Header.ofControl_eq hh
    cases hk.2
    exact .inr (.inl ⟨rfl, by rw [hf]; rfl⟩)
  | refuse _ _ _ hh _ hf =>
    obtain rfl := List.mem_singleton.1 hm
    obtain ⟨rfl, -⟩ := Header.ofControl_eq hh
    cases hk.2
    exact .inr (.inl ⟨rfl, by rw [hf]; exact Face.close_status _⟩)
  | confirm _ _ _ hh _ hf =>
    obtain rfl := List.mem_singleton.1 hm
    obtain ⟨rfl, -⟩ := Header.ofControl_eq hh
    cases hk.2
    exact .inr (.inr ⟨rfl, by rw [hf]; rfl⟩)

theorem user_cases {u : Delivery} {ch : Nat} (h : Move κ c sh e ms c' sh') (hm : m ∈ ms)
    (hk : m.1.kind = .user u ch) : c.face.Sending ∧ c'.face = c.face := by
  cases h with
  | quiet | enter | respond | approve | data => cases hm
  | user hs _ _ _ hf => exact ⟨hs, hf⟩
  | control _ hh | finish _ _ hh | refuse _ _ _ hh | confirm _ _ _ hh =>
    obtain rfl := List.mem_singleton.1 hm
    obtain ⟨rfl, -⟩ := Header.ofControl_eq hh
    cases hk

theorem late (h : Move κ c sh e ms c' sh') (hd : c.face.status = .disconnected) :
    c'.face.status = .disconnected ∧ (c'.face.awaiting = true → c.face.awaiting = true) ∧
      (ms = [] ∨ ∃ d, ms = [d] ∧ IsControl .disconnect d ∧ c.face.awaiting = true ∧
        c'.face.awaiting = false) := by
  have hstep := h.face_step
  have hd' : c'.face.status = .disconnected :=
    Status.eq_disconnected_of_rank (hd ▸ hstep.rank_le)
  refine ⟨hd', hstep.awaiting_of, ?_⟩
  cases h with
  | quiet | enter | respond | approve | data => exact .inl rfl
  | control hw => exact absurd hd hw.ne_disconnected
  | user hs => rcases hs with hs | hs <;> rw [hs] at hd <;> cases hd
  | finish hs => exact absurd hd hs
  | confirm _ hst => rw [hst] at hd; cases hd
  | refuse _ ha _ hh _ hf =>
    obtain ⟨rfl, -⟩ := Header.ofControl_eq hh
    refine .inr ⟨_, rfl, ⟨rfl, rfl⟩, ha, ?_⟩
    rw [hf]
    simp

theorem data_cases {ev : Event} (h : Move κ c sh e ms c' sh') (hev : ev ∈ e) (hdata : ev.IsData) :
    c.face.status ≠ .connecting ∧ c.face.status ≠ .disconnected := by
  cases h with
  | data hs hd => exact ⟨hs, hd⟩
  | quiet _ _ hch =>
    have := hch ev hev
    unfold Event.IsChatter at this
    obtain ⟨_, _, hk⟩ := hdata
    rw [hk] at this
    exact this.elim
  | control | user | respond | approve => cases hev
  | enter | finish | confirm => exact absurd hdata (not_data_of_statusNote hev)
  | refuse =>
    unfold closeNote at hev
    split at hev
    · cases hev
    · exact absurd hdata (not_data_of_statusNote hev)

end Move

namespace Path

variable {κ : Cause} {c c' : Connection} {sh sh' : Shared} {E : List Event}
  {M : List (Header × Bytes)}

theorem faces (h : Path κ c sh E M c' sh') : Relation.ReflTransGen (Face.Step κ) c.face c'.face := by
  induction h with
  | refl => exact .refl
  | snoc _ hm ih => exact ih.tail hm.face_step

theorem climb (h : Path κ c sh E M c' sh') (hon : Notify.has sh.released.enabled Notify.status = true) :
    Climb κ.Explains c.status (notes E) c'.status := by
  induction h with
  | refl => exact .refl _
  | snoc hp hm ih =>
    rw [notes_append]
    exact ih.trans (hm.climb (by rw [hp.emits.1]; exact hon))

variable {m : Header × Bytes}

theorem split_write (h : Path κ c sh E M c' sh') (hm : m ∈ M) :
    ∃ c₁ c₂ sh₁ sh₂ e ms, Relation.ReflTransGen (Face.Step κ) c.face c₁.face ∧
      Move κ c₁ sh₁ e ms c₂ sh₂ ∧ m ∈ ms ∧ Relation.ReflTransGen (Face.Step κ) c₂.face c'.face := by
  induction h with
  | refl => cases hm
  | snoc hp hmove ih =>
    rcases List.mem_append.1 hm with hm | hm
    · obtain ⟨c₁, c₂, sh₁, sh₂, e, ms, h₁, hmv, hmem, h₂⟩ := ih hm
      exact ⟨c₁, c₂, sh₁, sh₂, e, ms, h₁, hmv, hmem, h₂.tail hmove.face_step⟩
    · exact ⟨_, _, _, _, _, _, hp.faces, hmove, hm, .refl⟩

theorem split_event {ev : Event} (h : Path κ c sh E M c' sh') (hev : ev ∈ E) :
    ∃ c₁ c₂ sh₁ sh₂ e ms, Relation.ReflTransGen (Face.Step κ) c.face c₁.face ∧
      Move κ c₁ sh₁ e ms c₂ sh₂ ∧ ev ∈ e := by
  induction h with
  | refl => cases hev
  | snoc hp hmove ih =>
    rcases List.mem_append.1 hev with hev | hev
    · exact ih hev
    · exact ⟨_, _, _, _, _, _, hp.faces, hmove, hev⟩

/-- ConnectionEstablished and application data go out only once connected: the path starts
connected or lingering, or it ends connected. -/
theorem confirming (h : Path κ c sh E M c' sh') (hm : m ∈ M) (hc : (Cause.message m.1 m.2).Confirms) :
    c.face.Sending ∨ c'.face.status = .connected := by
  obtain ⟨c₁, c₂, _, _, _, _, h₁, hmove, hmem, h₂⟩ := h.split_write hm
  -- the move that wrote it leaves the connection connected or lingering
  have hs₂ : c₂.face.Sending := by
    rcases hc with hce | ⟨u, ch, hu⟩
    · rcases hmove.control_cases hmem hce with ⟨hw, hf⟩ | ⟨hk, -⟩ | ⟨-, hst⟩
      · rw [hf]
        exact .inl hw.2
      · cases hk
      · exact .inl hst
    · obtain ⟨hs, hf⟩ := hmove.user_cases hmem hu
      rw [hf]
      exact hs
  have h₁₂ := h₁.tail hmove.face_step
  by_cases hκ : κ.Connects
  · rcases hs₂ with hs₂ | hs₂
    · exact .inr ((Face.connected_of_trace h₂ hκ).1 hs₂)
    · exact .inl (.inr ((Face.connected_of_trace h₁₂ hκ).2 hs₂))
  · exact .inl ((Face.sending_of_trace h₁₂ hκ).2 hs₂)

theorem connectResponse (h : Path κ c sh E M c' sh')
    (hset : c.face.responded = true → c.face.awaiting = false) (hm : m ∈ M)
    (hk : IsControl .connectResponse m) :
    m.2 = Wire.putBytes c'.face.localHail ∧ c'.face.awaiting = false := by
  obtain ⟨c₁, c₂, _, _, _, _, h₁, hmove, hmem, h₂⟩ := h.split_write hm
  rcases hmove.control_cases hmem hk with ⟨hw, hf⟩ | ⟨hk', -⟩ | ⟨hk', -⟩
  · have ha₁ : c₁.face.awaiting = false :=
      Face.holds_of_trace (fun _ _ hs => hs.settled) h₁ hset hw.2.2.1
    rw [hf] at h₂
    obtain ⟨ha, hl⟩ := Face.localHail_of_trace h₂ ha₁
    exact ⟨hw.2.2.2.trans (by rw [hl]), ha⟩
  · cases hk'
  · cases hk'

theorem connect (h : Path κ c sh E M c' sh') (ha : c.face.awaiting = false) (hm : m ∈ M)
    (hk : IsControl .connect m) : ∃ app, m.2 = Payload.connect app c'.face.localHail := by
  obtain ⟨c₁, c₂, _, _, _, _, h₁, hmove, hmem, -⟩ := h.split_write hm
  rcases hmove.control_cases hmem hk with ⟨hw, -⟩ | ⟨hk', -⟩ | ⟨hk', -⟩
  · obtain ⟨app, hp⟩ := hw.2.2
    refine ⟨app, hp.trans ?_⟩
    rw [(Face.localHail_of_trace h₁ ha).2, (Face.localHail_of_trace h.faces ha).2]
  · cases hk'
  · cases hk'

theorem disconnect (h : Path κ c sh E M c' sh') (hm : m ∈ M) (hk : IsControl .disconnect m) :
    c'.face.status = .disconnected := by
  obtain ⟨c₁, c₂, _, _, _, _, -, hmove, hmem, h₂⟩ := h.split_write hm
  have hd₂ : c₂.face.status = .disconnected := by
    rcases hmove.control_cases hmem hk with ⟨hw, -⟩ | ⟨-, hd⟩ | ⟨hk', -⟩
    · exact hw.elim
    · exact hd
    · cases hk'
  exact Status.eq_disconnected_of_rank (hd₂ ▸ Face.rank_le_of_trace h₂)

/-- Once disconnected, a path writes at most the one Disconnect of a denial pending while the
connection awaits approval, and awaits nothing after it. -/
theorem late (h : Path κ c sh E M c' sh') (hd : c.face.status = .disconnected) :
    c'.face.status = .disconnected ∧ (c'.face.awaiting = true → c.face.awaiting = true) ∧
      (M = [] ∨ ∃ d, M = [d] ∧ IsControl .disconnect d ∧ c.face.awaiting = true ∧
        c'.face.awaiting = false) := by
  induction h with
  | refl => exact ⟨hd, fun h => h, .inl rfl⟩
  | @snoc c₁ c₂ _ _ _ _ _ _ _ hmove ih =>
    obtain ⟨hd₁, ha₁, hM⟩ := ih
    obtain ⟨hd₂, ha₂, hms⟩ := hmove.late hd₁
    refine ⟨hd₂, ha₁ ∘ ha₂, ?_⟩
    rcases hms with rfl | ⟨d, rfl, hk, ha, ha'⟩
    · rcases hM with rfl | ⟨d, rfl, hk, ha, ha'⟩
      · exact .inl rfl
      · -- nothing more is awaited
        refine .inr ⟨d, rfl, hk, ha, ?_⟩
        cases h₂ : c₂.face.awaiting
        · rfl
        · exact absurd (ha₂ h₂) (by rw [ha']; decide)
    · rcases hM with rfl | ⟨-, -, -, -, ha'⟩
      · exact .inr ⟨d, rfl, hk, ha₁ ha, ha'⟩
      · exact absurd ha (by rw [ha']; decide)

theorem gate (h : Path κ c sh E M c' sh') (hg : c.face.Gated κ) :
    c'.face.Gated κ ∧ (∀ m ∈ M, ¬IsControl .connectResponse m) ∧ ∀ ev ∈ E, ¬ev.IsData := by
  have hgates : ∀ {f₁ : Face}, Relation.ReflTransGen (Face.Step κ) c.face f₁ → f₁.Gated κ :=
    fun h₁ => Face.holds_of_trace (fun _ _ hs => hs.gated) h₁ hg
  refine ⟨hgates h.faces, fun m hm hk => ?_, fun ev hev hdata => ?_⟩
  · obtain ⟨c₁, _, _, _, _, _, h₁, hmove, hmem, -⟩ := h.split_write hm
    rcases hmove.control_cases hmem hk with ⟨hw, -⟩ | ⟨hk', -⟩ | ⟨hk', -⟩
    · exact absurd hw.2.2.1 (by rw [(hgates h₁).responded]; decide)
    · cases hk'
    · cases hk'
  · obtain ⟨c₁, _, _, _, _, _, h₁, hmove, hmem⟩ := h.split_event hev
    obtain ⟨hs, hd⟩ := hmove.data_cases hmem hdata
    rcases (hgates h₁).waiting with ⟨hc, -⟩ | hc
    · exact hs hc
    · exact hd hc

theorem writes (h : Path κ c sh E M c' sh') :
    Datagram.Writer.Writes c.writer M c'.writer ∧ ∀ m ∈ M, MessageWellFormed m := by
  induction h with
  | refl => exact ⟨.nil _, by simp⟩
  | snoc _ hm ih =>
    obtain ⟨hw, hwf⟩ := hm.writes
    refine ⟨ih.1.append hw, fun m hmem => ?_⟩
    rcases List.mem_append.1 hmem with hmem | hmem
    · exact ih.2 m hmem
    · exact hwf m hmem

end Path

end ReliableUdp
