import ReliableUdp.Proofs.Ledger.Books
import ReliableUdp.Proofs.ConnectionWindow
import ReliableUdp.Proofs.ResendLife
import Mathlib.Tactic.Abel

/-!
# Connections keep the payload ledger

`Step.Conserves H e pre x post Q`: a successful run of `x` on books counting `H` and `pre` leaves
books counting `H` and `post`. Its rules follow `pure`, `bind` and `foldlM`, carrying the
references of messages in flight.
-/

namespace ReliableUdp

theorem coe_flatten_set {α : Type} : ∀ (L : List (List α)) (i : Nat) (x : List α) (hi : i < L.length),
    (↑(L.set i x).flatten : Multiset α) + ↑L[i] = ↑L.flatten + ↑x
  | [], _, _, hi => absurd hi (Nat.not_lt_zero _)
  | l :: L, 0, x, _ => by
    simp only [List.set_cons_zero, List.flatten_cons, ← Multiset.coe_add, List.getElem_cons_zero]
    abel
  | l :: L, i + 1, x, hi => by
    have ih := coe_flatten_set L i x (by simpa using hi)
    simp only [List.set_cons_succ, List.flatten_cons, ← Multiset.coe_add, List.getElem_cons_succ]
    rw [add_assoc, ih, ← add_assoc]

namespace SendWindow

variable {w w' : SendWindow} {r : ResendSchedule}

def held (w : SendWindow) : Multiset Nat := ↑(w.all.map (·.msg.payload.id))

theorem held_eq_map (w : SendWindow) : w.held = (↑w.all : Multiset Stored).map (·.msg.payload.id) := rfl

theorem held_set {raw : Nat} (hraw : raw < w.stored.size) (x : List Stored) :
    (↑((w.stored.setIfInBounds raw x).toList.flatten.map (·.msg.payload.id)) : Multiset Nat) +
        ↑((w.storedOf raw).map (·.msg.payload.id)) = w.held + ↑(x.map (·.msg.payload.id)) := by
  have hlen : raw < w.stored.toList.length := by simpa using hraw
  have key := coe_flatten_set w.stored.toList raw x hlen
  have hget : w.storedOf raw = w.stored.toList[raw] := by
    rw [storedOf_eq_getD, List.getD_eq_getElem]
  rw [Array.toList_setIfInBounds, hget, held_eq_map, all, ← Multiset.map_coe, ← Multiset.map_coe,
    ← Multiset.map_coe, ← Multiset.map_add, key, Multiset.map_add]

theorem held_store (hs : w.stored.size = Kind.count) {m : Queued} {seq : Seq} {now rtt : Nat}
    (h : w.store m seq now r rtt = .ok w') : w'.held = w.held + {m.payload.id} := by
  obtain ⟨raw, d, t, hraw, -, -, rfl⟩ := store_cases h
  have key := held_set (hs ▸ slot_lt hraw) (w.storedOf raw ++ [{ msg := m, seq, sends := 1, nextResend := t }])
  rw [List.map_append, ← Multiset.coe_add, ← add_assoc, add_right_comm] at key
  exact add_right_cancel key

theorem held_assign {k : Kind} {seq : Option Seq} (h : w.assign k = .ok (seq, w')) : w'.held = w.held := by
  simp only [held, all, stored_assign h]

theorem held_clear (w : SendWindow) : w.clear.2.held = 0 ∧ ↑(w.clear.1.map (·.payload.id)) = w.held := by
  simp [clear, held, all, List.map_map, Function.comp_def]

theorem held_passes {now rtt : Nat} {l : List Stored} {os : List (Option Stored)}
    (h : List.Forall₂ (Passes now r rtt) l os) :
    (↑(l.map (·.msg.payload.id)) : Multiset Nat) =
      ↑((os.filterMap id).map (·.msg.payload.id)) + ↑((l.filter (drops now r)).map (·.msg.payload.id)) := by
  induction h with
  | nil => rfl
  | @cons s o l os hso _ ih =>
    cases hso with
    | wait hw =>
      have hd : drops now r s = false := by simp [drops]; omega
      simp only [List.map_cons, List.filterMap_cons, id_eq, List.filter_cons, hd, Bool.false_eq_true,
        if_false, ← Multiset.cons_coe, ih, Multiset.cons_add]
    | drop hn hm =>
      have hd : drops now r s = true := by simp [drops]; omega
      simp only [List.map_cons, List.filterMap_cons, id_eq, List.filter_cons, hd, if_true,
        ← Multiset.cons_coe, ih, Multiset.add_cons]
    | resend hn hm _ _ =>
      have hd : drops now r s = false := by simp [drops]; omega
      simp only [List.map_cons, List.filterMap_cons, id_eq, List.filter_cons, hd, Bool.false_eq_true,
        if_false, ← Multiset.cons_coe, ih, Multiset.cons_add]

theorem held_passes_flatten {now rtt : Nat} {L : List (List Stored)} {oss : List (List (Option Stored))}
    (h : List.Forall₂ (List.Forall₂ (Passes now r rtt)) L oss) :
    (↑(L.flatten.map (·.msg.payload.id)) : Multiset Nat) =
      ↑((oss.map (·.filterMap id)).flatten.map (·.msg.payload.id)) +
        ↑((L.flatten.filter (drops now r)).map (·.msg.payload.id)) := by
  induction h with
  | nil => rfl
  | cons hl _ ih =>
    simp only [List.flatten_cons, List.map_cons, List.map_append, List.filter_append, ← Multiset.coe_add]
    rw [held_passes hl, ih]
    abel

theorem held_resendDue {now rtt : Nat} {p : ResendPass} (h : w.resendDue now r rtt = .ok (p, w')) :
    w.held = w'.held + ↑(p.dropped.map (·.payload.id)) := by
  cases hp : w.passes now
  · rw [resendDue_of_not_passes hp] at h
    cases h
    simp
  · rw [resendDue_of_passes hp] at h
    obtain ⟨oss, hoss, hst, -, hdrop, -⟩ := scan_passes h
    rw [held, held, all, all, hst, hdrop, List.map_map]
    exact held_passes_flatten hoss

theorem held_ack (hs : w.stored.size = Kind.count) (seq : Seq) (raw : Nat) :
    w.held = (w.ack seq raw).2.held + ↑((w.ack seq raw).1.toList.map (·.payload.id)) := by
  unfold ack
  split
  · simp
  · rename_i hraw
    dsimp only
    split
    · rename_i i hi
      have hlen : i < (w.storedOf raw).length := (List.findIdx?_eq_some_iff_getElem.1 hi).1
      have key := held_set (w := w) (hs ▸ Nat.lt_of_not_le hraw) ((w.storedOf raw).eraseIdx i)
      have hperm : (↑((w.storedOf raw).map (·.msg.payload.id)) : Multiset Nat) =
          (w.storedOf raw)[i].msg.payload.id ::ₘ ↑(((w.storedOf raw).eraseIdx i).map (·.msg.payload.id)) := by
        rw [Multiset.cons_coe, Multiset.coe_eq_coe]
        exact ((List.getElem_cons_eraseIdx_perm hlen).map _).symm
      rw [hperm, ← Multiset.singleton_add, ← add_assoc] at key
      -- clearing the earliest time when nothing is left keeps the stored lists
      have hheld : (if (w.stored.setIfInBounds raw ((w.storedOf raw).eraseIdx i)).all (·.isEmpty) then
          { w with stored := w.stored.setIfInBounds raw ((w.storedOf raw).eraseIdx i), earliest := none }
          else { w with stored := w.stored.setIfInBounds raw ((w.storedOf raw).eraseIdx i) }).held =
          ↑((w.stored.setIfInBounds raw ((w.storedOf raw).eraseIdx i)).toList.flatten.map (·.msg.payload.id)) := by
        split <;> rfl
      rw [hheld, List.getElem?_eq_getElem hlen]
      simp only [Option.map_some, Option.toList_some, List.map_cons, List.map_nil, Multiset.coe_singleton]
      exact (add_right_cancel key).symm
    · simp

end SendWindow

def Handle.holds (h : Handle) : Multiset Nat := ↑(h.outbound.map (·.payload.id))

def Connection.holds (c : Connection) : Multiset Nat := c.handle.holds + c.sendWindow.held

/-- What the books need of a connection: its window is timely (in particular it keeps one list
per type number, so a store lands), and a closed connection keeps nothing for resending. -/
structure Connection.Tidy (c : Connection) : Prop where
  timely : c.sendWindow.Timely
  closed : c.status = .disconnected → c.sendWindow.all = []

def Connection.Same (c c' : Connection) : Prop :=
  c'.handle.id = c.handle.id ∧ c'.status = c.status ∧ c'.Tidy

def Connection.Kept (c c' : Connection) : Prop := c'.handle.id = c.handle.id ∧ c'.Tidy

namespace Connection

variable {c c₁ c₂ : Connection}

theorem Tidy.of_eq (ht : c.Tidy) (hs : c₁.status = c.status) (hw : c₁.sendWindow = c.sendWindow) :
    c₁.Tidy :=
  ⟨hw ▸ ht.timely, fun hd => hw ▸ ht.closed (hs ▸ hd)⟩

theorem Tidy.of_open (hw : c.sendWindow.Timely) (hs : c.status ≠ .disconnected) : c.Tidy :=
  ⟨hw, fun hd => absurd hd hs⟩

theorem Same.refl (ht : c.Tidy) : Same c c := ⟨rfl, rfl, ht⟩

theorem Same.trans (h₁ : Same c c₁) (h₂ : Same c₁ c₂) : Same c c₂ :=
  ⟨h₂.1.trans h₁.1, h₂.2.1.trans h₁.2.1, h₂.2.2⟩

theorem Same.kept (h : Same c c₁) : Kept c c₁ := ⟨h.1, h.2.2⟩

theorem Kept.trans (h₁ : Kept c c₁) (h₂ : Kept c₁ c₂) : Kept c c₂ := ⟨h₂.1.trans h₁.1, h₂.2⟩

end Connection

theorem coe_map_eq_sum {γ : Type} (l : List γ) (f : γ → Nat) :
    (↑(l.map f) : Multiset Nat) = (l.map fun a => ({f a} : Multiset Nat)).sum := by
  induction l with
  | nil => rfl
  | cons a l ih => rw [List.map_cons, List.map_cons, List.sum_cons, ← ih, Multiset.singleton_add]; rfl

namespace Step

variable {α β γ : Type}

/-- Run on a pool whose books count the references `H` and `pre`, a successful run of `x` leaves
books counting `H` and `post a`, no gone payload comes back, and `Q a` holds. -/
def Conserves (H : Multiset Nat) (e : Nat) (pre : Multiset Nat) (x : Step α) (post : α → Multiset Nat)
    (Q : α → Prop) : Prop :=
  ∀ sh a sh', sh.pool.Books (H + pre) e → x.run sh = .ok (a, sh') →
    sh'.pool.Books (H + post a) e ∧ Pool.Keeps sh.pool sh'.pool ∧ Q a

namespace Conserves

variable {H : Multiset Nat} {e : Nat} {pre : Multiset Nat} {x : Step α} {post : α → Multiset Nat}
  {Q R : α → Prop}

theorem pure {a : α} (hq : Q a) (hp : post a = pre) : Conserves H e pre (Pure.pure a : Step α) post Q := by
  intro sh b sh' hb hr
  cases hr
  exact ⟨hp ▸ hb, Pool.Keeps.refl _, hq⟩

theorem bind {f : α → Step β} {K : α → Multiset Nat} {post' : β → Multiset Nat} {S : β → Prop}
    (hx : Conserves H e pre x K Q) (hf : ∀ a, Q a → Conserves H e (K a) (f a) post' S) :
    Conserves H e pre (x >>= f) post' S := by
  intro sh b sh' hb hr
  rw [StateT.run_bind] at hr
  cases hx' : x.run sh with
  | error err =>
    rw [hx'] at hr
    cases hr
  | ok p =>
    rw [hx'] at hr
    obtain ⟨hb₁, hk₁, hq⟩ := hx sh p.1 p.2 hb hx'
    obtain ⟨hb₂, hk₂, hs⟩ := hf p.1 hq p.2 b sh' hb₁ hr
    exact ⟨hb₂, hk₁.trans hk₂, hs⟩

theorem mono (hx : Conserves H e pre x post Q) (h : ∀ a, Q a → R a) : Conserves H e pre x post R :=
  fun sh a sh' hb hr => (hx sh a sh' hb hr).imp_right fun h' => h'.imp_right (h a)

theorem silent (hx : ∀ sh a sh', x.run sh = .ok (a, sh') → sh'.pool = sh.pool)
    (hy : Yields x Q) : Conserves H e pre x (fun _ => pre) Q := by
  intro sh a sh' hb hr
  rw [hx sh a sh' hr]
  exact ⟨hb, Pool.Keeps.refl _, hy sh a sh' hr⟩

theorem crash {r : Except Crash α} :
    Conserves H e pre (Step.crash r) (fun _ => pre) fun a => r = .ok a :=
  silent (fun sh a sh' hr => by cases r <;> cases hr; rfl) Yields.crash

theorem settings : Conserves H e pre Step.settings (fun _ => pre) fun _ => True :=
  silent (fun sh a sh' hr => by cases hr; rfl) Yields.any

theorem emit (g : Released → Released) : Conserves H e pre (Step.emit g) (fun _ => pre) fun _ => True :=
  silent (fun sh a sh' hr => by cases hr; rfl) Yields.any

theorem count (g : Stats → Stats) : Conserves H e pre (Step.count g) (fun _ => pre) fun _ => True :=
  silent (fun sh a sh' hr => by cases hr; rfl) Yields.any

theorem release {ms : List Queued} (hle : (↑(ms.map (·.payload.id)) : Multiset Nat) ≤ pre) :
    Conserves H e pre (Step.release ms) (fun _ => pre - ↑(ms.map (·.payload.id))) fun _ => True := by
  intro sh a sh' hb hr
  cases hr
  have hids : (ms.map (·.payload)).map (·.id) = ms.map (·.payload.id) := by simp
  obtain ⟨hb', hk⟩ := hb.releaseAll (ms.map (·.payload)) (hids ▸ hle.trans (Multiset.le_add_left _ _))
  refine ⟨?_, hk, trivial⟩
  show sh.pool.releaseAll (ms.map (·.payload)) |>.Books _ e
  rwa [hids, Multiset.add_sub_assoc hle] at hb'

theorem withPool {f : Pool → α × Pool}
    (hf : ∀ pool, pool.Books (H + pre) e →
      (f pool).2.Books (H + post (f pool).1) e ∧ Pool.Keeps pool (f pool).2 ∧ Q (f pool).1) :
    Conserves H e pre (Step.withPool f) post Q := by
  intro sh a sh' hb hr
  cases hr
  exact hf sh.pool hb

theorem viaPool {F : Pool → Except Crash (γ × Pool)} {k : γ → Step β} {K : γ → Multiset Nat}
    {post' : β → Multiset Nat} {S : β → Prop} {P : γ → Prop}
    (hF : ∀ pool a pool', pool.Books (H + pre) e → F pool = .ok (a, pool') →
      pool'.Books (H + K a) e ∧ Pool.Keeps pool pool' ∧ P a)
    (hk : ∀ a, P a → Conserves H e (K a) (k a) post' S) :
    Conserves H e pre (do
      let sh ← get
      let (a, pool) ← Step.crash (F sh.pool)
      set { sh with pool }
      k a) post' S := by
  intro sh b sh' hb hr
  simp only [StateT.run_bind, StateT.run_get, pure_bind] at hr
  cases hF' : F sh.pool with
  | error err =>
    rw [hF'] at hr
    cases hr
  | ok p =>
    obtain ⟨a, pool'⟩ := p
    rw [hF'] at hr
    obtain ⟨hb₁, hk₁, hp⟩ := hF sh.pool a pool' hb hF'
    obtain ⟨hb₂, hk₂, hs⟩ := hk a hp _ b sh' hb₁ hr
    exact ⟨hb₂, hk₁.trans hk₂, hs⟩

theorem markSent (p : Payload) : Conserves H e pre (Step.markSent p) (fun _ => pre) fun _ => True := by
  unfold Step.markSent
  refine .bind (K := fun _ => pre) (Q := fun _ => True)
    (withPool fun pool hb => ⟨(hb.markSent p).1, (hb.markSent p).2, trivial⟩) fun first _ => ?_
  split
  · exact count _
  · exact .pure trivial rfl

theorem frame {M : Multiset Nat} (hx : Conserves (H + M) e pre x post Q) :
    Conserves H e (pre + M) x (fun a => post a + M) Q := by
  intro sh a sh' hb hr
  rw [add_comm pre M, ← add_assoc] at hb
  obtain ⟨hb', hk, hq⟩ := hx sh a sh' hb hr
  refine ⟨?_, hk, hq⟩
  show sh'.pool.Books (H + (post a + M)) e
  rwa [add_comm (post a) M, ← add_assoc]

theorem congr {pre' : Multiset Nat} {post' : α → Multiset Nat} (hx : Conserves H e pre x post Q)
    (hpre : pre' = pre) (hpost : ∀ a, Q a → post a = post' a) : Conserves H e pre' x post' Q := by
  intro sh a sh' hb hr
  obtain ⟨hb', hk, hq⟩ := hx sh a sh' (hpre ▸ hb) hr
  exact ⟨hpost a hq ▸ hb', hk, hq⟩

theorem release_one (m : Queued) :
    Conserves H e (pre + {m.payload.id}) (Step.release [m]) (fun _ => pre) fun _ => True :=
  congr (release (by simp [Multiset.zero_le])) rfl fun _ _ => by simp

theorem framed {M pre' : Multiset Nat} {post' : α → Multiset Nat} (hx : Conserves (H + M) e pre x post Q)
    (hpre : pre' = pre + M) (hpost : ∀ a, Q a → post a + M = post' a) : Conserves H e pre' x post' Q :=
  congr (frame hx) hpre hpost

theorem foldlM {f : β → γ → Step β} {hold : β → Multiset Nat} {items : γ → Multiset Nat}
    {I : β → Prop} (hf : ∀ H b x, I b → Conserves H e (hold b + items x) (f b x) hold I) :
    ∀ (l : List γ) (H : Multiset Nat) (b : β), I b →
      Conserves H e (hold b + (l.map items).sum) (l.foldlM f b) hold I
  | [], _, _, hb => pure hb (by simp)
  | x :: l, H, b, hb => by
    rw [List.foldlM_cons]
    refine bind (K := fun b' => hold b' + (l.map items).sum) ?_ fun b' hb' => foldlM hf l H b' hb'
    refine congr (frame (hf (H + (l.map items).sum) b x hb)) ?_ fun _ _ => rfl
    rw [List.map_cons, List.sum_cons, add_assoc]

theorem mapM {f : γ → Step β} {items : γ → Multiset Nat} {out : β → Multiset Nat} {R : γ → β → Prop} :
    ∀ (l : List γ), (∀ H, ∀ x ∈ l, Conserves H e (items x) (f x) out (R x)) → ∀ H : Multiset Nat,
      Conserves H e (l.map items).sum (l.mapM f) (fun bs => (bs.map out).sum) (List.Forall₂ R l)
  | [], _, _ => pure .nil (by simp)
  | x :: l, hf, H => by
    rw [List.mapM_cons]
    refine bind (K := fun b => out b + (l.map items).sum) (Q := R x) ?_ fun b hb => ?_
    · refine congr (frame (hf (H + (l.map items).sum) x List.mem_cons_self)) ?_ fun _ _ => rfl
      rw [List.map_cons, List.sum_cons]
    · refine bind (K := fun bs => out b + (bs.map out).sum) ?_ fun bs hbs => pure (.cons hb hbs) ?_
      · refine congr (frame (M := out b) (mapM l (fun H y hy => hf H y (List.mem_cons_of_mem _ hy))
          (H + out b))) (add_comm _ _) fun _ _ => add_comm _ _
      · rw [List.map_cons, List.sum_cons]

theorem forIn_emit {ρ : Type} (g : ρ → Released → Released) : ∀ l : List ρ,
    Conserves H e pre (forIn l PUnit.unit fun x _ => do
      Step.emit (g x)
      Pure.pure (ForInStep.yield PUnit.unit)) (fun _ => pre) fun _ => True
  | [] => pure trivial rfl
  | x :: l => by
    rw [List.forIn_cons]
    refine bind (K := fun _ => pre) (Q := fun r => r = ForInStep.yield PUnit.unit)
      (bind (emit (g x)) fun _ _ => pure rfl rfl) fun r hr => ?_
    subst hr
    exact forIn_emit g l

theorem foldlM_quiet {f : β → γ → Step β} {hold : β → Multiset Nat} {I : β → Prop}
    (hf : ∀ H b x, I b → Conserves H e (hold b) (f b x) hold I) (l : List γ) (H : Multiset Nat) (b : β)
    (hb : I b) : Conserves H e (hold b) (l.foldlM f b) hold I := by
  have hfold : ∀ (l : List γ) (H : Multiset Nat) (b : β), I b →
      Conserves H e (hold b + (l.map fun _ => (0 : Multiset Nat)).sum) (l.foldlM f b) hold I :=
    foldlM fun H b x hb => congr (hf H b x hb) (add_zero _) fun _ _ => rfl
  exact congr (hfold l H b hb) (by simp) fun _ _ => rfl

end Conserves
end Step
end ReliableUdp
