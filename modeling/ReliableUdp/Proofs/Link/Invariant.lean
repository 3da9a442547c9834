import ReliableUdp.Proofs.Link.Sender

/-!
# The link invariant

`Link.Inv l g σ hist` ties a link to the sender's numbering, the receiver's ledger and the
arrivals so far. Every action keeps it while the sender gives nothing up and stays within half
the space.
-/

namespace ReliableUdp

theorem Abstracts.takeAcks {σ : Ledger} {w : ReceiveWindow} (h : Abstracts σ w) :
    Abstracts σ w.takeAcks.2 :=
  ⟨h.expected_size, h.withheld_size, fun r hr =>
    ⟨(h.folds r hr).expected, (h.folds r hr).early, (h.folds r hr).held⟩⟩

theorem arrived_append {hist ps : List Received} {r i : Nat} (h : Arrived (hist.map (·.1)) r i) :
    Arrived ((hist ++ ps).map (·.1)) r i := by
  obtain ⟨a, ha, h⟩ := h
  exact ⟨a, by rw [List.map_append]; exact List.mem_append_left _ ha, h⟩

namespace Link

def Names (g : Numbering) (hist : List Received) (e : Seq × Nat) (j : Nat) : Prop :=
  e.2 < Kind.count ∧ e.1 = Seq.ofNat j ∧ j < g.assigned e.2 ∧ Arrived (hist.map (·.1)) e.2 j

/-- Index `j` of type `r` is at most half the space behind the next index or a stored one. -/
def Near (g : Numbering) (r j : Nat) : Prop :=
  g.assigned r ≤ j + seqSpace / 2 ∨ ∃ i ∈ g.index r, i ≤ j + seqSpace / 2

structure Inv (l : Link) (g : Numbering) (σ : Ledger) (hist : List Received) : Prop where
  logged : l.Logged g
  recent : g.Recent
  abstracts : Abstracts σ l.rx
  ordered : ∀ c < 32, OrderedInv (orderedRaw c) (σ.track (orderedRaw c)) hist
  unordered : UnorderedInv (σ.track unorderedRaw) hist
  released : l.released = hist.flatMap (·.2.2)
  honest : ∀ p ∈ hist, (l.sentOn p.1.raw)[p.1.index]? = some p.1.inbound
  arrived : ∀ r i, i < g.assigned r → i ∉ g.index r → Arrived (hist.map (·.1)) r i
  confirmed : ∀ x ∈ l.confirmed, ∃ j, (l.sentOn x.kind.toRaw)[j]? = some x ∧
    Arrived (hist.map (·.1)) x.kind.toRaw j
  up : ∀ x ∈ l.up, ∃ i ∈ g.index x.kind.toRaw, (l.sentOn x.kind.toRaw)[i]? = some x
  up_acking : l.phase = .acking → l.up = []
  owed : ∀ e ∈ l.rx.acks, ∃ j, Names g hist e j ∧ Near g e.2 j ∧
    (l.phase ≠ .sending → l.down ≠ [] → g.assigned e.2 < j + seqSpace / 2)
  down : ∀ e ∈ l.down, ∃ j, Names g hist e j ∧
    (l.phase = .acking → g.assigned e.2 < j + seqSpace) ∧ (l.phase ≠ .acking → Near g e.2 j)
  quiet : l.phase = .sending → l.down ≠ [] → l.rx.acks = []

variable {l l' : Link} {g : Numbering} {σ : Ledger} {hist : List Received}

/-! ## The numbering under a send -/

section Numbers

variable {w : SendWindow} {m : Queued}

theorem Names.append {e : Seq × Nat} {j : Nat} {ps : List Received} (h : Names g hist e j) :
    Names g (hist ++ ps) e j :=
  ⟨h.1, h.2.1, h.2.2.1, arrived_append h.2.2.2⟩

theorem Near.assigned_lt (hr : g.Recent) {r j : Nat} (h : Near g r j) : g.assigned r < j + seqSpace := by
  rcases h with h | ⟨i, hi, hij⟩
  · simp only [seqSpace] at h ⊢
    omega
  · have := hr r i hi
    simp only [seqSpace] at this hij ⊢
    omega

theorem assigned_le_step_send (hk : m.kind.remembered = true) (r : Nat) :
    g.assigned r ≤ (g.step w (.send m)).assigned r := by
  rw [Numbering.step_send hk]
  by_cases hr : r = m.kind.toRaw
  · subst hr
    simp
  · simp [Function.update_of_ne hr]

theorem mem_index_step_send (hk : m.kind.remembered = true) {r i : Nat} (hi : i ∈ g.index r) :
    i ∈ (g.step w (.send m)).index r := by
  rw [Numbering.step_send hk]
  by_cases hr : r = m.kind.toRaw
  · subst hr
    simp [hi]
  · simpa [Function.update_of_ne hr] using hi

theorem Names.step_send (hk : m.kind.remembered = true) {e : Seq × Nat} {j : Nat} (h : Names g hist e j) :
    Names (g.step w (.send m)) hist e j :=
  ⟨h.1, h.2.1, Nat.lt_of_lt_of_le h.2.2.1 (assigned_le_step_send hk _), h.2.2.2⟩

theorem Near.step_send (hk : m.kind.remembered = true) {r j : Nat} (h : Near g r j) :
    Near (g.step w (.send m)) r j := by
  rcases h with h | ⟨i, hi, hij⟩
  · by_cases hr : r = m.kind.toRaw
    · subst hr
      refine .inr ⟨g.assigned m.kind.toRaw, ?_, h⟩
      rw [Numbering.step_send hk]
      simp
    · left
      rw [Numbering.step_send hk]
      simpa [Function.update_of_ne hr] using h
  · exact .inr ⟨i, mem_index_step_send hk hi, hij⟩

theorem arrived_step_send (hk : m.kind.remembered = true)
    (h : ∀ r i, i < g.assigned r → i ∉ g.index r → Arrived (hist.map (·.1)) r i) (r i : Nat)
    (hi : i < (g.step w (.send m)).assigned r) (hn : i ∉ (g.step w (.send m)).index r) :
    Arrived (hist.map (·.1)) r i := by
  rw [Numbering.step_send hk] at hi hn
  by_cases hr : r = m.kind.toRaw
  · subst hr
    simp only [Function.update_self, List.mem_append, List.mem_singleton, not_or] at hi hn
    exact h _ i (by omega) hn.1
  · simp only [Function.update_of_ne hr] at hi hn
    exact h r i hi hn

theorem mem_of_mem_update_erase {f : Nat → List Nat} {r r' i j : Nat}
    (h : i ∈ Function.update f r ((f r).erase j) r') : i ∈ f r' := by
  by_cases hr : r' = r
  · subst hr
    rw [Function.update_self] at h
    exact List.mem_of_mem_erase h
  · rwa [Function.update_of_ne hr] at h

theorem not_mem_update_erase {f : Nat → List Nat} {r r' i j : Nat}
    (h : i ∉ Function.update f r ((f r).erase j) r') : (r' = r ∧ i = j) ∨ i ∉ f r' := by
  by_cases hr : r' = r
  · subst hr
    rw [Function.update_self] at h
    by_cases hij : i = j
    · exact .inl ⟨rfl, hij⟩
    · exact .inr fun hi => h ((List.mem_erase_of_ne hij).2 hi)
  · rw [Function.update_of_ne hr] at h
    exact .inr h

end Numbers

/-! ## Where the receiver stands -/

theorem Inv.position (hI : Inv l g σ hist) {r : Nat}
    (hr : r = unorderedRaw ∨ ∃ c < 32, r = orderedRaw c) :
    (∀ x < (σ.track r).pos, Arrived (hist.map (·.1)) r x) ∧
      ¬ Arrived (hist.map (·.1)) r (σ.track r).pos := by
  rcases hr with rfl | ⟨c, hc, rfl⟩
  · have hu := hI.unordered
    refine ⟨fun x hx => (hu.arrived x).2 (.inl hx), fun h => ?_⟩
    rcases (hu.arrived _).1 h with h | h
    · exact Nat.lt_irrefl _ h
    · have hf := (hI.abstracts.folds unorderedRaw (by decide)).early rfl
      exact Nat.lt_irrefl _ (hf.2.2 _ h).1
  · have ho := hI.ordered c hc
    refine ⟨fun x hx => (ho.arrived x).2 (.inl hx), fun h => ?_⟩
    rcases (ho.arrived _).1 h with h | h
    · exact Nat.lt_irrefl _ h
    · obtain ⟨p, hp, hpe⟩ := List.mem_map.1 h
      have := (ho.held p hp).1
      omega

theorem Inv.pos_le (hI : Inv l g σ hist) {r : Nat} (hr : r = unorderedRaw ∨ ∃ c < 32, r = orderedRaw c) :
    (σ.track r).pos ≤ g.assigned r := by
  rcases Nat.eq_zero_or_pos (σ.track r).pos with h | h
  · omega
  · obtain ⟨a, ha, har, hai⟩ := (hI.position hr).1 _ (Nat.sub_lt h Nat.one_pos)
    obtain ⟨p, hp, rfl⟩ := List.mem_map.1 ha
    have hs := hI.honest p hp
    rw [har, hai] at hs
    have := (List.getElem?_eq_some_iff.1 hs).1
    rw [hI.logged.assigned r]
    omega

/-- A stored index lies within half the space of its type's position at the receiver. The
position has not arrived, so if it is behind the next index it was never acknowledged: it is
stored, and the next index is within half the space of it. -/
theorem Inv.inWindow (hI : Inv l g σ hist) {a : Arrival}
    (hr : a.raw = unorderedRaw ∨ ∃ c < 32, a.raw = orderedRaw c) (hi : a.index ∈ g.index a.raw) :
    σ.InWindow a := by
  intro _
  have hA := hI.recent _ _ hi
  have hb := hI.logged.numbered.below _ _ hi
  have hpos := hI.pos_le hr
  by_cases hlt : (σ.track a.raw).pos < g.assigned a.raw
  · have hmem : (σ.track a.raw).pos ∈ g.index a.raw := by
      by_contra hn
      exact (hI.position hr).2 (hI.arrived _ _ hlt hn)
    have := hI.recent _ _ hmem
    simp only [seqSpace] at *
    omega
  · simp only [seqSpace] at *
    omega

theorem Inv.unique (hI : Inv l g σ hist) {e : Seq × Nat} {j : Nat} (hn : Names g hist e j)
    (hA : g.assigned e.2 < j + seqSpace) : ∀ i ∈ g.index e.2, Seq.ofNat i = e.1 ↔ i = j := by
  intro i hi
  have h₁ := hI.recent _ _ hi
  have h₂ := hI.logged.numbered.below _ _ hi
  have h₃ := hn.2.2.1
  rw [hn.2.1]
  exact Seq.ofNat_eq_ofNat_iff (by simp only [seqSpace] at *; omega) (by simp only [seqSpace] at *; omega)

/-! ## One action -/

theorem Inv.fresh (n : Nat) : Inv (fresh n) {} {} [] where
  logged := Logged.fresh n
  recent := Numbering.recent_empty
  abstracts := abstracts_fresh
  ordered c _ := OrderedInv.init (orderedRaw c)
  unordered := UnorderedInv.init
  released := rfl
  honest p hp := by cases hp
  arrived r i hi := absurd hi (Nat.not_lt_zero i)
  confirmed x hx := by cases hx
  up x hx := by cases hx
  up_acking _ := rfl
  owed e he := by cases he
  down e he := by cases he
  quiet _ _ := rfl

theorem Inv.send (hI : Inv l g σ hist) {m : Queued} {t : Nat} (ha : act (.send m t) l = some l')
    (hw : l'.tx.WithinHalf) : Inv l' (g.step l.tx (.send m)) σ hist := by
  have hrec := hI.logged.recent_send hI.recent ha hw
  have hsent : ∀ {r i y}, (l.sentOn r)[i]? = some y → (l'.sentOn r)[i]? = some y :=
    fun hy => getElem?_sentOn_send ha hy
  obtain ⟨hlog, hup, -, hx⟩ := hI.logged.send ha
  obtain ⟨hph, hk, s, w, -, -, rfl⟩ := act_send ha
  refine ⟨hlog, hrec, hI.abstracts, hI.ordered, hI.unordered, hI.released,
    fun p hp => hsent (hI.honest p hp), arrived_step_send hk hI.arrived, fun y hy => ?_,
    fun y hy => ?_, (fun h => by rw [hph] at h; cases h), fun e he => ?_, fun e he => ?_, hI.quiet⟩
  · obtain ⟨j, hj, harr⟩ := hI.confirmed y hy
    exact ⟨j, hsent hj, harr⟩
  · rcases List.mem_append.1 (hup ▸ hy) with hy | hy
    · obtain ⟨i, hi, hyi⟩ := hI.up y hy
      exact ⟨i, mem_index_step_send hk hi, hsent hyi⟩
    · -- the new first copy is the index just given out
      rw [List.mem_singleton.1 hy]
      refine ⟨g.assigned m.kind.toRaw, ?_, hx⟩
      rw [Numbering.step_send hk]
      simp
  · obtain ⟨j, hn, hnear, -⟩ := hI.owed e he
    exact ⟨j, hn.step_send hk, hnear.step_send hk, fun h => absurd hph h⟩
  · obtain ⟨j, hn, -, hnear⟩ := hI.down e he
    have hnear := hnear (by rw [hph]; decide)
    exact ⟨j, hn.step_send hk, (fun h => by rw [hph] at h; cases h), fun _ => hnear.step_send hk⟩

theorem Inv.resend (hI : Inv l g σ hist) {now rtt : Nat} {rs : ResendSchedule}
    (ha : act (.resend now rs rtt) l = some l') (hkept : l'.lost = []) : Inv l' g σ hist := by
  obtain ⟨hlog, -, hup⟩ := hI.logged.resend ha hkept
  obtain ⟨hph, pass, w, -, rfl⟩ := act_resend ha
  refine ⟨hlog, hI.recent, hI.abstracts, hI.ordered, hI.unordered, hI.released, hI.honest,
    hI.arrived, hI.confirmed, fun y hy => ?_, (fun h => by rw [hph] at h; cases h), hI.owed, hI.down,
    hI.quiet⟩
  rcases hup y hy with hy | ⟨r, st, hst, rfl⟩
  · exact hI.up y hy
  · -- a message sent again is a stored one, the logged first copy of a stored index
    obtain ⟨i, hi, hsi⟩ := hI.logged.stored_mem hst
    rw [Inbound.raw_of_getElem?_onRaw hsi]
    exact ⟨i, hi, hsi⟩

theorem Inv.flush (hI : Inv l g σ hist) (ha : act .flush l = some l') : Inv l' g σ hist := by
  rw [act_flush ha]
  refine ⟨hI.logged.frame rfl rfl, hI.recent, hI.abstracts.takeAcks, hI.ordered, hI.unordered,
    hI.released, hI.honest, hI.arrived, hI.confirmed, hI.up, hI.up_acking,
    (fun e he => by cases he), fun e he => ?_, fun _ _ => rfl⟩
  rcases List.mem_append.1 he with he | he
  · exact hI.down e he
  · obtain ⟨j, hn, hnear, -⟩ := hI.owed e he
    exact ⟨j, hn, fun _ => hnear.assigned_lt hI.recent, fun _ => hnear⟩

theorem Inv.ship (hI : Inv l g σ hist) (ha : act .ship l = some l') : Inv l' g σ hist := by
  obtain ⟨hph, rfl⟩ := act_ship ha
  refine ⟨hI.logged.frame rfl rfl, hI.recent, hI.abstracts, hI.ordered, hI.unordered, hI.released,
    hI.honest, hI.arrived, hI.confirmed, hI.up, (fun h => by cases h), fun e he => ?_, fun e he => ?_,
    (fun h => by cases h)⟩
  · obtain ⟨j, hn, hnear, -⟩ := hI.owed e he
    -- while sending, nothing is owed once acknowledgements are on the wire
    refine ⟨j, hn, hnear, fun _ hd => ?_⟩
    rw [hI.quiet hph hd] at he
    cases he
  · obtain ⟨j, hn, -, hnear⟩ := hI.down e he
    exact ⟨j, hn, (fun h => by cases h), fun _ => hnear (by rw [hph]; decide)⟩

theorem Inv.arrive (hI : Inv l g σ hist) {k now : Nat} (ha : act (.arrive k now) l = some l') :
    ∃ a : Arrival, Inv l' g (σ.step a).2 (hist ++ [(a, (σ.step a).1)]) := by
  obtain ⟨hph, m, v, out, w, hm, hrecv, rfl⟩ := act_arrive ha
  obtain ⟨i, hi, hx⟩ := hI.up m (List.mem_of_getElem? hm)
  obtain ⟨hseq, hk⟩ := hI.logged.sent _ i m hx
  obtain ⟨a, rfl, rfl, rfl, har, -⟩ := Inbound.arrival hk hseq now
  rw [← har] at hi hx
  obtain ⟨w', hw', hab⟩ := hI.abstracts.receive (hI.inWindow (har ▸ Kind.remembered_raw hk) hi)
  rw [hrecv] at hw'
  obtain ⟨rfl, rfl, rfl⟩ : v = (σ.step a).1.1 ∧ out = (σ.step a).1.2 ∧ w = w' := by
    simpa only [Except.ok.injEq, Prod.mk.injEq] using hw'
  have hacks := ReceiveWindow.receive_acks hrecv
  refine ⟨a, hI.logged.frame rfl rfl, hI.recent, hab, fun c hc => (hI.ordered c hc).step hc a,
    hI.unordered.step a, ?_, fun p hp => ?_, fun r j hj hn => arrived_append (hI.arrived r j hj hn),
    fun y hy => ?_, hI.up, hI.up_acking, fun e he => ?_, fun e he => ?_,
    (fun h => by rw [hph] at h; cases h)⟩
  · simp [hI.released]
  · rcases List.mem_append.1 hp with hp | hp
    · exact hI.honest p hp
    · rw [List.mem_singleton.1 hp]
      exact hx
  · obtain ⟨j, hj, harr⟩ := hI.confirmed y hy
    exact ⟨j, hj, arrived_append harr⟩
  · rw [hacks] at he
    rcases List.mem_append.1 he with he | he
    · obtain ⟨j, hn, hnear, hc⟩ := hI.owed e he
      exact ⟨j, hn.append, hnear, hc⟩
    · -- the acknowledgement of this arrival names its index, which is stored
      have hrel : a.method.isReliable = true := (Kind.remembered_spec hk).2.2.1
      rw [hrel, if_pos rfl, List.mem_singleton] at he
      subst he
      refine ⟨a.index, ⟨a.raw_lt, rfl, hI.logged.numbered.below _ _ hi, ?_⟩,
        .inr ⟨a.index, hi, Nat.le_add_right _ _⟩, fun _ _ => hI.recent _ _ hi⟩
      simp only [List.map_append, List.map_cons, List.map_nil]
      exact arrived_append_singleton.2 (.inr ⟨rfl, rfl⟩)
  · obtain ⟨j, hn, hA, hnear⟩ := hI.down e he
    exact ⟨j, hn.append, hA, hnear⟩

theorem Inv.turn (hI : Inv l g σ hist) (ha : act .turn l = some l') : Inv l' g σ hist := by
  obtain ⟨hph, rfl⟩ := act_turn ha
  refine ⟨hI.logged.frame rfl rfl, hI.recent, hI.abstracts, hI.ordered, hI.unordered, hI.released,
    hI.honest, hI.arrived, hI.confirmed, (fun x hx => by cases hx), fun _ => rfl, fun e he => ?_,
    fun e he => ?_, (fun h => by cases h)⟩
  · obtain ⟨j, hn, hnear, hc⟩ := hI.owed e he
    exact ⟨j, hn, hnear, fun _ => hc (by rw [hph]; decide)⟩
  · obtain ⟨j, hn, -, hnear⟩ := hI.down e he
    exact ⟨j, hn, fun _ => (hnear (by rw [hph]; decide)).assigned_lt hI.recent, fun h => absurd rfl h⟩

theorem Inv.ackIn (hI : Inv l g σ hist) {k : Nat} (ha : act (.ackIn k) l = some l') :
    ∃ g', Inv l' g' σ hist := by
  obtain ⟨hph, s, r, hd, rfl⟩ := act_ackIn ha
  have hdne : l.down ≠ [] := fun h => by rw [h] at hd; cases hd
  obtain ⟨j, hn, hA, -⟩ := hI.down _ (List.mem_of_getElem? hd)
  have huniq := hI.unique hn (hA hph)
  obtain ⟨hr, rfl, -, harr⟩ := hn
  obtain ⟨hlog, hconf⟩ := hI.logged.ackIn hr huniq
  refine ⟨_, hlog, fun r' i hi => ?_, hI.abstracts, hI.ordered, hI.unordered, hI.released, hI.honest,
    fun r' i hi hni => ?_, fun y hy => ?_, (fun y hy => by rw [hI.up_acking hph] at hy; cases hy),
    hI.up_acking, fun e he => ?_, fun e he => ?_, hI.quiet⟩
  · exact hI.recent _ _ (mem_of_mem_update_erase hi)
  · -- the index the acknowledgement removes has arrived
    rcases not_mem_update_erase hni with ⟨rfl, rfl⟩ | hni
    · exact harr
    · exact hI.arrived _ _ hi hni
  · rcases List.mem_append.1 hy with hy | hy
    · exact hI.confirmed y hy
    · rw [hconf] at hy
      split at hy
      · have hyj : (l.sentOn r)[j]? = some y := Option.mem_toList.1 hy
        rw [Inbound.raw_of_getElem?_onRaw hyj]
        exact ⟨j, hyj, harr⟩
      · cases hy
  · obtain ⟨j', hn', -, hc⟩ := hI.owed e he
    have hc := hc (by rw [hph]; decide) hdne
    exact ⟨j', hn', .inl (Nat.le_of_lt hc), fun _ _ => hc⟩
  · obtain ⟨j', hn', hA', -⟩ := hI.down e he
    exact ⟨j', hn', hA', fun h => absurd hph h⟩

theorem Inv.next (hI : Inv l g σ hist) (ha : act .next l = some l') : Inv l' g σ hist := by
  obtain ⟨hph, rfl⟩ := act_next ha
  refine ⟨hI.logged.frame rfl rfl, hI.recent, hI.abstracts, hI.ordered, hI.unordered, hI.released,
    hI.honest, hI.arrived, hI.confirmed, fun x hx => ?_, (fun h => by cases h), fun e he => ?_,
    (fun e he => by cases he), fun _ _ => ?_⟩
  · rw [hI.up_acking hph] at hx
    cases hx
  · obtain ⟨j, hn, hnear, -⟩ := hI.owed e he
    exact ⟨j, hn, hnear, fun h => absurd rfl h⟩
  · contradiction

theorem Inv.step (hI : Inv l g σ hist) {a : Act} (ha : act a l = some l') (hkept : l'.lost = [])
    (hw : l'.tx.WithinHalf) : ∃ g' σ' hist', Inv l' g' σ' hist' := by
  cases a with
  | send m t => exact ⟨_, σ, hist, hI.send ha hw⟩
  | resend now rs rtt => exact ⟨g, σ, hist, hI.resend ha hkept⟩
  | flush => exact ⟨g, σ, hist, hI.flush ha⟩
  | ship => exact ⟨g, σ, hist, hI.ship ha⟩
  | arrive k now =>
    obtain ⟨b, hb⟩ := hI.arrive ha
    exact ⟨g, _, _, hb⟩
  | turn => exact ⟨g, σ, hist, hI.turn ha⟩
  | ackIn k =>
    obtain ⟨g', hg'⟩ := hI.ackIn ha
    exact ⟨g', σ, hist, hg'⟩
  | next => exact ⟨g, σ, hist, hI.next ha⟩

/-! ## Runs -/

theorem lost_prefix_run {as : List Act} (h : run as l = some l') : l.lost <+: l'.lost := by
  induction as generalizing l with
  | nil =>
    cases h
    exact List.prefix_refl _
  | cons a as ih =>
    obtain ⟨l₁, h₁, h₂⟩ := run_cons h
    exact (lost_prefix_act h₁).trans (ih h₂)

theorem mem_trace_self (as : List Act) (l : Link) : l ∈ trace as l := by
  cases as <;> simp [trace]

/-- A run that gives nothing up and stays within half the space keeps the invariant. The
induction is over the actions; the ghosts are chosen afresh at each step. -/
theorem Inv.run (hI : Inv l g σ hist) {as : List Act} (hrun : run as l = some l')
    (hkept : l'.lost = []) (hhalf : ∀ q ∈ trace as l, q.tx.WithinHalf) :
    ∃ g' σ' hist', Inv l' g' σ' hist' := by
  induction as generalizing l g σ hist with
  | nil =>
    cases hrun
    exact ⟨g, σ, hist, hI⟩
  | cons a as ih =>
    obtain ⟨l₁, h₁, h₂⟩ := run_cons hrun
    have htr : trace (a :: as) l = l :: trace as l₁ := trace_cons_of_act h₁
    have hkept₁ : l₁.lost = [] := List.prefix_nil.1 (hkept ▸ lost_prefix_run h₂)
    have hin : ∀ q ∈ trace as l₁, q.tx.WithinHalf := fun q hq => hhalf q (htr ▸ List.mem_cons_of_mem _ hq)
    obtain ⟨g₁, σ₁, hist₁, hI₁⟩ := hI.step h₁ hkept₁ (hin l₁ (mem_trace_self as l₁))
    exact ih hI₁ h₂ hin

end Link
end ReliableUdp
