import ReliableUdp.Proofs.Outbound
import ReliableUdp.Proofs.ConnectionWindow

/-!
# Draining the outbound queues

`Connection.Drains` records a drain piece by piece: each piece sent with its number and header,
or held back with the block it found. Nothing a send does lifts a block, so every piece held
back is still blocked when the drain ends (`Drains.held_blocked`).
-/

namespace ReliableUdp

namespace Step

/-- Every successful run of `x` from a shared state with the settings `s` keeps them, and its
result satisfies `P`. -/
def Under {α : Type} (s : Settings) (x : Step α) (P : α → Prop) : Prop :=
  ∀ sh a sh', sh.settings = s → x.run sh = .ok (a, sh') → sh'.settings = s ∧ P a

namespace Under

variable {α β γ : Type} {s : Settings} {x : Step α} {P Q : α → Prop}

theorem pure {a : α} (h : P a) : Under s (Pure.pure a : Step α) P := by
  intro sh b sh' hs hr
  cases hr
  exact ⟨hs, h⟩

theorem bind {f : α → Step β} {R : β → Prop} (hx : Under s x Q) (hf : ∀ a, Q a → Under s (f a) R) :
    Under s (x >>= f) R := by
  intro sh b sh' hs hr
  rw [StateT.run_bind] at hr
  cases h₁ : x.run sh with
  | error e =>
    rw [h₁] at hr
    cases hr
  | ok p =>
    rw [h₁] at hr
    obtain ⟨hs₁, hq⟩ := hx sh p.1 p.2 hs h₁
    exact hf p.1 hq p.2 b sh' hs₁ hr

theorem mono (hx : Under s x P) (h : ∀ a, P a → Q a) : Under s x Q :=
  fun sh a sh' hs hr => (hx sh a sh' hs hr).imp_right (h a)

theorem crash {e : Except Crash α} : Under s (Step.crash e) fun a => e = .ok a := by
  intro sh a sh' hs hr
  cases e with
  | error => cases hr
  | ok b =>
    cases hr
    exact ⟨hs, rfl⟩

theorem settings : Under s Step.settings (· = s) := by
  intro sh a sh' hs hr
  cases hr
  exact ⟨hs, hs⟩

theorem get : Under s (MonadState.get : Step Shared) (·.settings = s) := by
  intro sh a sh' hs hr
  cases hr
  exact ⟨hs, hs⟩

theorem set {sh₁ : Shared} (h : sh₁.settings = s) : Under s (MonadStateOf.set sh₁ : Step PUnit) fun _ => True := by
  intro sh a sh' _ hr
  cases hr
  exact ⟨h, trivial⟩

theorem modify {f : Shared → Shared} (hf : ∀ sh, (f sh).settings = sh.settings) :
    Under s (MonadState.modifyGet fun sh => (PUnit.unit, f sh) : Step PUnit) fun _ => True := by
  intro sh a sh' hs hr
  cases hr
  exact ⟨(hf sh).trans hs, trivial⟩

theorem emit (g : Released → Released) : Under s (Step.emit g) fun _ => True := modify fun _ => rfl

theorem count (g : Stats → Stats) : Under s (Step.count g) fun _ => True := modify fun _ => rfl

theorem release (ms : List Queued) : Under s (Step.release ms) fun _ => True := modify fun _ => rfl

theorem withPool {f : Pool → α × Pool} : Under s (Step.withPool f) fun a => ∃ pool, (f pool).1 = a :=
  .bind get fun sh hsh => .bind (set (show ({ sh with pool := (f sh.pool).2 } : Shared).settings = s from hsh))
    fun _ _ => .pure ⟨sh.pool, rfl⟩

theorem markSent (p : Payload) : Under s (Step.markSent p) fun _ => True :=
  .bind withPool fun first _ => by
    split
    · exact count _
    · exact .pure trivial

theorem foldlM_trace {δ : Type} {f : β → γ → Step β} {T : β → List δ → β → Prop}
    {E : γ → List δ → Prop} (hnil : ∀ b, T b [] b)
    (happ : ∀ {b b₁ b₂ xs ys}, T b xs b₁ → T b₁ ys b₂ → T b (xs ++ ys) b₂)
    (hf : ∀ b a, Under s (f b a) fun b' => ∃ xs, E a xs ∧ T b xs b') :
    ∀ (l : List γ) (b : β), Under s (l.foldlM f b) fun b' => ∃ xss, List.Forall₂ E l xss ∧ T b xss.flatten b'
  | [], b => .pure ⟨[], .nil, hnil b⟩
  | a :: l, b => by
    rw [List.foldlM_cons]
    refine .bind (hf b a) fun b₁ ⟨xs, he, ht⟩ => (foldlM_trace hnil happ hf l b₁).mono ?_
    rintro b' ⟨xss, hall, ht'⟩
    exact ⟨xs :: xss, .cons he hall, happ ht ht'⟩

end Under
end Step

namespace SendWindow

variable {w : SendWindow}

theorem isFull_eq_true_iff {k : Kind} {raw : Nat} (hr : k.isReliable = true) (hs : k.slot = .ok raw) :
    w.isFull k = .ok true ↔ w.window ≤ (w.storedOf raw).length := by
  simp only [isFull, hr, Bool.not_true, Bool.false_eq_true, if_false, hs, bind, Except.bind,
    pure, Except.pure, Except.ok.injEq, decide_eq_true_eq]

theorem isFull_true_cases {k : Kind} (h : w.isFull k = .ok true) :
    k.isReliable = true ∧ ∃ raw, k.slot = .ok raw ∧ w.window ≤ (w.storedOf raw).length := by
  cases hr : k.isReliable with
  | false => simp [isFull, hr, pure, Except.pure] at h
  | true =>
    cases hs : k.slot with
    | error e => simp [isFull, hr, hs, bind, Except.bind] at h
    | ok raw => exact ⟨rfl, raw, rfl, (isFull_eq_true_iff hr hs).1 h⟩

theorem length_storedOf_keep (m : Queued) (seq : Option Seq) (t r : Nat) :
    (w.storedOf r).length ≤ ((w.keep m seq t).storedOf r).length := by
  unfold keep
  split
  · split
    · simp only [storedOf, Array.getD_eq_getD_getElem?, Array.getElem?_setIfInBounds]
      split
      · split <;> simp_all
      · exact Nat.le_refl _
    · exact Nat.le_refl _
  · exact Nat.le_refl _

theorem isFull_keep {k k' : Kind} {seq : Option Seq} {w₁ : SendWindow} (hfull : w.isFull k = .ok true)
    (ha : w.assign k' = .ok (seq, w₁)) (m : Queued) (t : Nat) : (w₁.keep m seq t).isFull k = .ok true := by
  obtain ⟨hr, raw, hs, hle⟩ := isFull_true_cases hfull
  -- numbering changes only the next numbers, so the stored lists are as before
  have hw₁ : w₁.window = w.window ∧ w₁.storedOf raw = w.storedOf raw := by
    rcases assign_cases ha with ⟨-, -, rfl⟩ | ⟨_, -, -, -, rfl⟩ <;> exact ⟨rfl, rfl⟩
  rw [isFull_eq_true_iff hr hs, window_keep, hw₁.1]
  calc w.window ≤ (w.storedOf raw).length := hle
    _ = (w₁.storedOf raw).length := by rw [hw₁.2]
    _ ≤ _ := length_storedOf_keep m seq t raw

end SendWindow

namespace Queued

def Pieces (size : Nat) (m : Queued) (ps : List Queued) : Prop :=
  ps = [m] ∨ m.fragment = none ∧ ∃ g rs, Fragments.ranges m.payload.data.length g size = .ok rs ∧
    ps = rs.map fun r => { m with fragment := some r }

def Expands (size : Nat) (q ps : List Queued) : Prop :=
  ∃ pss, List.Forall₂ (Pieces size) q pss ∧ ps = pss.flatten

theorem Expands.append {size : Nat} {q q' ps ps' : List Queued} (h : Expands size q ps)
    (h' : Expands size q' ps') : Expands size (q ++ q') (ps ++ ps') := by
  obtain ⟨pss, hall, rfl⟩ := h
  obtain ⟨pss', hall', rfl⟩ := h'
  exact ⟨pss ++ pss', List.rel_append hall hall', by simp⟩

theorem Expands.cons {size : Nat} {m : Queued} {q ps ps' : List Queued} (h : m.Pieces size ps)
    (h' : Expands size q ps') : Expands size (m :: q) (ps ++ ps') := by
  obtain ⟨pss, hall, rfl⟩ := h'
  exact ⟨ps :: pss, .cons h hall, rfl⟩

end Queued

theorem Fragments.split_eq {pool pool' : Pool} {m : Queued} {g c : Nat} {frags : List Queued}
    (h : Fragments.split pool m g c = .ok (frags, pool')) :
    ∃ rs, Fragments.ranges m.payload.data.length g c = .ok rs ∧
      frags = rs.map fun r => { m with fragment := some r } := by
  simp only [Fragments.split, bind, Except.bind] at h
  cases hr : Fragments.ranges m.payload.data.length g c with
  | error e => simp [hr] at h
  | ok rs =>
    simp only [hr, pure, Except.pure, Except.ok.injEq, Prod.mk.injEq] at h
    exact ⟨rs, rfl, h.1.symm⟩

structure Dispatch where
  piece : Queued
  seq : Option Seq
  header : Header

def Dispatch.msg (d : Dispatch) : Header × Bytes := (d.header, d.piece.data)

namespace Connection

def Sends (c : Connection) (now : Nat) (d : Dispatch) (c' : Connection) : Prop :=
  ∃ w₁ w t, c.sendWindow.assign d.piece.kind = .ok (d.seq, w₁) ∧
    Header.ofUser d.piece.kind d.seq d.piece.data.length d.piece.tag = .ok d.header ∧
    c.writer.write d.header d.piece.data = .ok w ∧
    c' = { c with
      sendWindow := w₁.keep d.piece d.seq t, writer := w
      throttle := c.throttle.charge d.piece.data.length, lastSent := now }

variable {s : Settings} {c : Connection} {now : Nat}

theorem writeUser_under (c : Connection) (m : Queued) (seq : Option Seq) :
    Step.Under s (c.writeUser m seq) fun c' => ∃ h w, Header.ofUser m.kind seq m.data.length m.tag = .ok h ∧
      c.writer.write h m.data = .ok w ∧ c' = { c with writer := w, throttle := c.throttle.charge m.data.length } := by
  unfold writeUser
  exact .bind .crash fun h hh => .bind .crash fun w hw => .pure ⟨h, w, hh, hw, rfl⟩

theorem sendUser_sends (c : Connection) (m : Queued) (now : Nat) :
    Step.Under s (c.sendUser m now) fun c' => ∃ d, d.piece = m ∧ c.Sends now d c' := by
  unfold sendUser
  refine .bind .crash fun ⟨seq, w₁⟩ hassign => ?_
  refine .bind (writeUser_under _ _ _) fun c₁ hc₁ => .bind (Step.Under.markSent _) fun _ _ => ?_
  obtain ⟨h, w, hh, hw, rfl⟩ := hc₁
  dsimp only
  -- the window is the one `assign` left, with the piece kept when it is reliable and numbered
  have hsends : ∀ t, ∃ d : Dispatch, d.piece = m ∧ Sends c now d
      { c with
        sendWindow := w₁.keep m seq t, writer := w
        throttle := c.throttle.charge m.data.length, lastSent := now } :=
    fun t => ⟨⟨m, seq, h⟩, rfl, w₁, w, t, hassign, hh, hw, rfl⟩
  split
  · split
    · refine .bind .settings fun _ _ => .bind .crash fun _ _ => .bind .crash fun sw hsw => .pure ?_
      obtain ⟨t, rfl⟩ := SendWindow.store_eq_keep hsw
      exact hsends t
    · rename_i hrel
      refine .bind (Step.Under.release _) fun _ _ => .pure ?_
      simpa [SendWindow.keep_unreliable (Bool.eq_false_iff.2 hrel)] using hsends now
  · refine .bind (Step.Under.release _) fun _ _ => .pure ?_
    simpa using hsends now


def Blocked (s : Settings) (c : Connection) (k : Kind) : Prop :=
  c.throttle.isThrottled s.throttleRate s.throttlePeak = true ∨ c.sendWindow.isFull k = .ok true

def Clear (s : Settings) (c : Connection) (k : Kind) : Prop :=
  c.throttle.isThrottled s.throttleRate s.throttlePeak = false ∧ c.sendWindow.isFull k = .ok false

end Connection

inductive Outcome where
  | sent (d : Dispatch)
  | held (m : Queued)

namespace Outcome

def piece : Outcome → Queued
  | sent d => d.piece
  | held m => m

def heldBack (os : List Outcome) : List Queued :=
  os.filterMap fun | sent _ => none | held m => some m

def dispatches (os : List Outcome) : List Dispatch :=
  os.filterMap fun | sent d => some d | held _ => none

@[simp] theorem heldBack_nil : heldBack [] = [] := rfl
@[simp] theorem heldBack_sent (d : Dispatch) (os : List Outcome) : heldBack (sent d :: os) = heldBack os := rfl
@[simp] theorem heldBack_held (m : Queued) (os : List Outcome) : heldBack (held m :: os) = m :: heldBack os := rfl
@[simp] theorem heldBack_append (os os' : List Outcome) : heldBack (os ++ os') = heldBack os ++ heldBack os' :=
  List.filterMap_append
@[simp] theorem dispatches_nil : dispatches [] = [] := rfl
@[simp] theorem dispatches_sent (d : Dispatch) (os : List Outcome) : dispatches (sent d :: os) = d :: dispatches os := rfl
@[simp] theorem dispatches_held (m : Queued) (os : List Outcome) : dispatches (held m :: os) = dispatches os := rfl
@[simp] theorem dispatches_append (os os' : List Outcome) :
    dispatches (os ++ os') = dispatches os ++ dispatches os' :=
  List.filterMap_append

end Outcome

namespace Connection

/-- A drain from `c` to `c'`, piece by piece: a held piece found its kind blocked, a sent piece
found it clear and was sent; between pieces the next fragment group may move on. -/
inductive Drains (s : Settings) (now : Nat) : Connection → List Outcome → Connection → Prop
  | nil (c : Connection) : Drains s now c [] c
  | held {c c' : Connection} {os : List Outcome} (m : Queued) :
      c.Blocked s m.kind → Drains s now c os c' → Drains s now c (.held m :: os) c'
  | sent {c c₁ c' : Connection} {os : List Outcome} (d : Dispatch) :
      c.Clear s d.piece.kind → c.Sends now d c₁ → Drains s now c₁ os c' → Drains s now c (.sent d :: os) c'
  | regroup {c c' : Connection} {os : List Outcome} (n : Nat) :
      Drains s now { c with nextGroup := n } os c' → Drains s now c os c'


theorem Sends.blocked {s : Settings} {now : Nat} {c c₁ : Connection} {d : Dispatch} {k : Kind} (hc : c.Clear s d.piece.kind) (hs : c.Sends now d c₁)
    (hb : c.Blocked s k) : c₁.Blocked s k := by
  obtain ⟨w₁, w, t, ha, -, -, rfl⟩ := hs
  rcases hb with hth | hfull
  · rw [hc.1] at hth
    cases hth
  · exact .inr (SendWindow.isFull_keep hfull ha _ t)

namespace Drains

variable {s : Settings} {now : Nat} {c c₁ c' : Connection} {os os' : List Outcome}

theorem append (h₁ : Drains s now c os c₁) (h₂ : Drains s now c₁ os' c') : Drains s now c (os ++ os') c' := by
  induction h₁ with
  | nil => exact h₂
  | held m hb _ ih => exact .held m hb (ih h₂)
  | sent d hc hs _ ih => exact .sent d hc hs (ih h₂)
  | regroup n _ ih => exact .regroup n (ih h₂)

theorem blocked {k : Kind} (h : Drains s now c os c') (hb : c.Blocked s k) : c'.Blocked s k := by
  induction h with
  | nil => exact hb
  | held _ _ _ ih => exact ih hb
  | sent d hc hs _ ih => exact ih (Sends.blocked hc hs hb)
  | regroup n _ ih => exact ih hb

theorem held_blocked (h : Drains s now c os c') : ∀ m ∈ Outcome.heldBack os, c'.Blocked s m.kind := by
  induction h with
  | nil => simp
  | held m hb hd ih =>
    intro m' hm'
    rcases List.mem_cons.1 hm' with rfl | hm'
    · exact hd.blocked hb
    · exact ih m' hm'
  | sent _ _ _ _ ih => exact ih
  | regroup _ _ ih => exact ih

theorem writes (h : Drains s now c os c') :
    Datagram.Writer.Writes c.writer ((Outcome.dispatches os).map Dispatch.msg) c'.writer := by
  induction h with
  | nil => exact .nil _
  | held _ _ _ ih => exact ih
  | sent d _ hs _ ih =>
    obtain ⟨w₁, w, t, -, -, hw, rfl⟩ := hs
    exact .cons hw ih
  | regroup _ _ ih => exact ih

theorem frame (h : Drains s now c os c') :
    c'.handle = c.handle ∧ c'.status = c.status ∧ c'.receiveWindow = c.receiveWindow := by
  induction h with
  | nil => exact ⟨rfl, rfl, rfl⟩
  | held _ _ _ ih => exact ih
  | sent d _ hs _ ih =>
    obtain ⟨w₁, w, t, -, -, -, rfl⟩ := hs
    exact ih
  | regroup _ _ ih => exact ih

end Drains

def Drain.Goes (s : Settings) (now : Nat) (acc : Drain) (os : List Outcome) (acc' : Drain) : Prop :=
  Drains s now acc.2.2 os acc'.2.2 ∧ acc'.2.1 = acc.2.1 ++ Outcome.heldBack os

namespace Drain.Goes

variable {s : Settings} {now : Nat} {acc acc₁ acc₂ : Drain} {os os' : List Outcome}

theorem nil (acc : Drain) : Goes s now acc [] acc := ⟨.nil _, by simp⟩

theorem append (h₁ : Goes s now acc os acc₁) (h₂ : Goes s now acc₁ os' acc₂) : Goes s now acc (os ++ os') acc₂ :=
  ⟨h₁.1.append h₂.1, by rw [h₂.2, h₁.2]; simp⟩

end Drain.Goes

theorem Outcome.map_piece_flatten {l : List Queued} {oss : List (List Outcome)}
    (h : List.Forall₂ (fun m os => os.map Outcome.piece = [m]) l oss) : oss.flatten.map Outcome.piece = l := by
  induction h with
  | nil => rfl
  | cons hm _ ih => simp [hm, ih]


variable {s : Settings}

theorem offer_drains (now : Nat) (acc : Drain) (m : Queued) :
    Step.Under s (offer now acc m) fun acc' =>
      ∃ os, os.map Outcome.piece = [m] ∧ Drain.Goes s now acc os acc' ∧ acc'.2.2.nextGroup = acc.2.2.nextGroup := by
  obtain ⟨wrote, deferred, c⟩ := acc
  unfold offer
  refine .bind .settings fun s' hs' => ?_
  subst s'
  split
  · rename_i hth
    exact .pure ⟨[.held m], rfl, ⟨.held m (.inl hth) (.nil _), by simp⟩, rfl⟩
  · rename_i hth
    refine .bind .crash fun full hfull => ?_
    split
    · rename_i hf
      exact .pure ⟨[.held m], rfl, ⟨.held m (.inr (by rw [hfull, hf])) (.nil _), by simp⟩, rfl⟩
    · rename_i hf
      have hclear : c.Clear s m.kind := ⟨Bool.eq_false_iff.2 hth, by rw [hfull, Bool.eq_false_iff.2 hf]⟩
      refine .bind (sendUser_sends c m now) fun c' ⟨d, hd, hsend⟩ => .pure ⟨[.sent d], by simp [Outcome.piece, hd], ?_⟩
      subst hd
      refine ⟨⟨.sent d hclear hsend (.nil _), by simp⟩, ?_⟩
      obtain ⟨w₁, w, t, -, -, -, rfl⟩ := hsend
      rfl

theorem drainOne_drains (now maxWhole : Nat) (acc : Drain) (m : Queued) :
    Step.Under s (drainOne now maxWhole acc m) fun acc' =>
      ∃ os, m.Pieces s.maxPayload (os.map Outcome.piece) ∧ Drain.Goes s now acc os acc' ∧
        (m.Sendable → acc.2.2.nextGroup < 65536 →
          (∀ o ∈ os, o.piece.Sendable) ∧ acc'.2.2.nextGroup < 65536) := by
  obtain ⟨wrote, deferred, c⟩ := acc
  unfold drainOne
  refine .bind .settings fun s' hs' => ?_
  subst s'
  split
  · rename_i hth
    refine .pure ⟨[.held m], .inl rfl, ⟨.held m (.inl hth) (.nil _), by simp⟩, fun hm hg => ⟨?_, hg⟩⟩
    simpa [Outcome.piece] using hm
  · split
    · rename_i hbig
      have hnone : m.fragment = none := by
        simp only [Bool.and_eq_true, Option.isNone_iff_eq_none] at hbig
        exact hbig.1
      refine .bind .get fun sh hsh => .bind .crash fun ⟨frags, pool⟩ hsplit => ?_
      refine .bind (.set (show ({ sh with pool } : Shared).settings = _ from hsh)) fun _ _ => ?_
      have hsend : m.Sendable → c.nextGroup < 65536 → ∀ f ∈ frags, f.Sendable :=
        fun hm hg => Fragments.split_sendable hm hg hsplit
      obtain ⟨rs, hrs, rfl⟩ := Fragments.split_eq hsplit
      -- the fragments are offered one after the other, from the connection with the next group;
      -- offers keep that group
      refine (Step.Under.foldlM_trace (T := fun a os a' => Drain.Goes s now a os a' ∧ a'.2.2.nextGroup = a.2.2.nextGroup)
        (fun _ => ⟨Drain.Goes.nil _, rfl⟩) (fun h₁ h₂ => ⟨h₁.1.append h₂.1, h₂.2.trans h₁.2⟩)
        (fun acc f => offer_drains now acc f) _ _).mono ?_
      rintro acc' ⟨oss, hall, hgo, hgroup⟩
      have hpieces := Outcome.map_piece_flatten hall
      refine ⟨oss.flatten, .inr ⟨hnone, c.nextGroup, rs, hrs, hpieces⟩, ⟨.regroup _ hgo.1, hgo.2⟩, fun hm hg => ⟨?_, ?_⟩⟩
      · intro o ho
        exact hsend hm hg o.piece (hpieces ▸ List.mem_map_of_mem ho)
      · rw [hgroup]
        exact Nat.mod_lt _ (by decide)
    · refine (offer_drains now _ m).mono fun acc' ⟨os, hos, hgo, hgroup⟩ => ⟨os, .inl hos, hgo, fun hm hg => ⟨?_, hgroup ▸ hg⟩⟩
      intro o ho
      have : o.piece ∈ [m] := hos ▸ List.mem_map_of_mem ho
      rw [List.mem_singleton.1 this]
      exact hm

theorem foldlM_drainOne (now maxWhole : Nat) : ∀ (q : List Queued) (acc : Drain),
    Step.Under s (q.foldlM (drainOne now maxWhole) acc) fun acc' =>
      ∃ os, Queued.Expands s.maxPayload q (os.map Outcome.piece) ∧ Drain.Goes s now acc os acc' ∧
        ((∀ m ∈ q, m.Sendable) → acc.2.2.nextGroup < 65536 →
          (∀ o ∈ os, o.piece.Sendable) ∧ acc'.2.2.nextGroup < 65536)
  | [], acc => .pure ⟨[], ⟨[], .nil, rfl⟩, Drain.Goes.nil acc, fun _ hg => ⟨by simp, hg⟩⟩
  | m :: q, acc => by
    rw [List.foldlM_cons]
    refine .bind (drainOne_drains now maxWhole acc m) fun acc₁ ⟨os₁, hp₁, hgo₁, hs₁⟩ =>
      (foldlM_drainOne now maxWhole q acc₁).mono fun acc' ⟨os₂, he₂, hgo₂, hs₂⟩ => ?_
    refine ⟨os₁ ++ os₂, by simpa using Queued.Expands.cons hp₁ he₂, hgo₁.append hgo₂, fun hq hg => ?_⟩
    obtain ⟨hp₁, hg₁⟩ := hs₁ (hq m List.mem_cons_self) hg
    obtain ⟨hp₂, hg₂⟩ := hs₂ (fun m' hm' => hq m' (List.mem_cons_of_mem _ hm')) hg₁
    refine ⟨fun o ho => ?_, hg₂⟩
    rcases List.mem_append.1 ho with ho | ho
    · exact hp₁ o ho
    · exact hp₂ o ho

/-- A drain takes the three queues high before normal before low: each drains as the pieces of
its messages, from the connection with its throttle brought up to date and its queues emptied,
and what each holds back becomes its queue again, in order. The pieces of a sound connection's
queues can be sent. -/
theorem drainOutbound_pieces (c : Connection) (now : Nat) :
    Step.Under s (c.drainOutbound now) fun r => ∃ oh on ol c₁,
      Queued.Expands s.maxPayload c.handle.high (oh.map Outcome.piece) ∧
      Queued.Expands s.maxPayload c.handle.normal (on.map Outcome.piece) ∧
      Queued.Expands s.maxPayload c.handle.low (ol.map Outcome.piece) ∧
      Drains s now { c with
          throttle := c.throttle.update now s.throttleRate
          handle := { c.handle with high := [], normal := [], low := [] } } (oh ++ on ++ ol) c₁ ∧
      r.2 = { c₁ with handle := { c₁.handle with
        high := Outcome.heldBack oh, normal := Outcome.heldBack on, low := Outcome.heldBack ol } } ∧
      (c.Sound → ∀ o ∈ oh ++ on ++ ol, o.piece.Sendable) := by
  unfold drainOutbound
  refine .bind .settings fun s' hs' => ?_
  subst s'
  simp only [List.foldlM_cons, List.foldlM_nil, bind_assoc, pure_bind]
  refine .bind (foldlM_drainOne now _ _ _) fun a₁ ⟨oh, hh, gh, sh⟩ => ?_
  refine .bind (foldlM_drainOne now _ _ _) fun a₂ ⟨on, hn, gn, sn⟩ => ?_
  refine .bind (foldlM_drainOne now _ _ _) fun a₃ ⟨ol, hl, gl, sl⟩ => .pure ?_
  refine ⟨oh, on, ol, a₃.2.2, hh, hn, hl, (gh.1.append gn.1).append gl.1, ?_, fun hc => ?_⟩
  · have e₁ : a₁.2.1 = Outcome.heldBack oh := by simpa using gh.2
    have e₂ : a₂.2.1 = Outcome.heldBack on := by simpa using gn.2
    have e₃ : a₃.2.1 = Outcome.heldBack ol := by simpa using gl.2
    simp [e₁, e₂, e₃]
  · -- the queues hold sendable messages, and the group stays a 16-bit number from queue to queue
    have hq : ∀ m ∈ c.handle.outbound, m.Sendable := hc.queued
    simp only [Handle.outbound, List.mem_append] at hq
    obtain ⟨ph, g₁⟩ := sh (fun m hm => hq m (.inl (.inl hm))) hc.group
    obtain ⟨pn, g₂⟩ := sn (fun m hm => hq m (.inl (.inr hm))) g₁
    obtain ⟨pl, -⟩ := sl (fun m hm => hq m (.inr hm)) g₂
    intro o ho
    simp only [List.mem_append] at ho
    rcases ho with (ho | ho) | ho
    · exact ph o ho
    · exact pn o ho
    · exact pl o ho

theorem drainOutbound_drains (c : Connection) (now : Nat) :
    Step.Under s (c.drainOutbound now) fun r => ∃ oh on ol c₁,
      Queued.Expands s.maxPayload c.handle.high (oh.map Outcome.piece) ∧
      Queued.Expands s.maxPayload c.handle.normal (on.map Outcome.piece) ∧
      Queued.Expands s.maxPayload c.handle.low (ol.map Outcome.piece) ∧
      Drains s now { c with
          throttle := c.throttle.update now s.throttleRate
          handle := { c.handle with high := [], normal := [], low := [] } } (oh ++ on ++ ol) c₁ ∧
      r.2 = { c₁ with handle := { c₁.handle with
        high := Outcome.heldBack oh, normal := Outcome.heldBack on, low := Outcome.heldBack ol } } :=
  (drainOutbound_pieces c now).mono fun _ ⟨oh, on, ol, c₁, hh, hn, hl, hd, hr, _⟩ =>
    ⟨oh, on, ol, c₁, hh, hn, hl, hd, hr⟩

end Connection
end ReliableUdp
