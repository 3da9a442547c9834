import ReliableUdp.Proofs.Safety.Bounds

/-!
# Cutting a Disconnect reason to fit

`Wire.truncateText` walks down from the whole length to the first character boundary that fits,
which is the longest prefix that fits (`Payload.disconnectReason_longest_fit`).
-/

namespace ReliableUdp
namespace Utf8

/-! ## Character boundaries of encoded text -/

theorem isCont_lead_two : ∀ x : UInt8, isCont (x &&& 0x1f ||| 0xc0) = false := by decide +kernel

theorem isCont_lead_three : ∀ x : UInt8, isCont (x &&& 0x0f ||| 0xe0) = false := by decide +kernel

theorem isCont_lead_four : ∀ x : UInt8, isCont (x &&& 0x07 ||| 0xf0) = false := by decide +kernel

theorem isCont_tail : ∀ x : UInt8, isCont (x &&& 0x3f ||| 0x80) = true := by decide +kernel

theorem encodeChar_cases (c : Char) :
    ∃ b bs, String.utf8EncodeChar c = b :: bs ∧ isCont b = false ∧ ∀ x ∈ bs, isCont x = true := by
  have h1 := c.utf8Size_pos
  have h4 := c.utf8Size_le_four
  obtain h | h | h | h : c.utf8Size = 1 ∨ c.utf8Size = 2 ∨ c.utf8Size = 3 ∨ c.utf8Size = 4 := by
    omega
  · refine ⟨_, [], String.utf8EncodeChar_eq_singleton h, ?_, by simp⟩
    have hv : c.val.toNat ≤ 127 := by
      simpa [Char.utf8Size_eq_one_iff, UInt32.le_iff_toNat_le] using h
    simp only [isCont, UInt32.toNat_toUInt8, Bool.and_eq_false_iff, decide_eq_false_iff_not]
    omega
  · exact ⟨_, _, String.utf8EncodeChar_eq_cons_cons h, isCont_lead_two _, by simp [isCont_tail]⟩
  · exact ⟨_, _, String.utf8EncodeChar_eq_cons_cons_cons h, isCont_lead_three _,
      by simp [isCont_tail]⟩
  · exact ⟨_, _, String.utf8EncodeChar_eq_cons_cons_cons_cons h, isCont_lead_four _,
      by simp [isCont_tail]⟩

theorem encode_eq (s : String) : encode s = s.toList.flatMap String.utf8EncodeChar := by
  simp [encode, ← String.utf8Encode_toList, List.utf8Encode]

theorem length_flatMap_encodeChar (l : List Char) :
    (l.flatMap String.utf8EncodeChar).length = String.utf8Len l := by
  induction l with
  | nil => rfl
  | cons c l ih => simp [ih, String.utf8Len_cons, Nat.add_comm]

@[simp] theorem isCharBoundary_zero (bs : Bytes) : isCharBoundary bs 0 = true := by
  simp [isCharBoundary]

theorem isCharBoundary_append {e rest : Bytes} {j : Nat} (hj : 0 < j) :
    isCharBoundary (e ++ rest) (e.length + j) = isCharBoundary rest j := by
  have hne : (e.length + j == 0) = false := beq_false_of_ne (by omega)
  have hne' : (j == 0) = false := beq_false_of_ne (by omega)
  simp only [isCharBoundary, hne, hne', Bool.false_or, List.getElem?_append_right
    (Nat.le_add_right _ _), Nat.add_sub_cancel_left, List.length_append]
  cases rest[j]? <;> simp

theorem head_lead (l : List Char) {b : UInt8} (hb : (l.flatMap String.utf8EncodeChar)[0]? = some b) :
    isCont b = false := by
  cases l with
  | nil => simp at hb
  | cons c l =>
    obtain ⟨b', bs, he, hlead, -⟩ := encodeChar_cases c
    rw [List.flatMap_cons, he, List.cons_append, List.getElem?_cons_zero] at hb
    exact Option.some.inj hb ▸ hlead

theorem isCharBoundary_iff (l : List Char) (i : Nat) :
    isCharBoundary (l.flatMap String.utf8EncodeChar) i = true ↔
      ∃ p, p <+: l ∧ String.utf8Len p = i := by
  induction l generalizing i with
  | nil =>
    simp only [List.flatMap_nil, List.prefix_nil, exists_eq_left, String.utf8Len_nil]
    simpa [isCharBoundary] using eq_comm
  | cons c l ih =>
    obtain ⟨b, bs, he, hlead, htail⟩ := encodeChar_cases c
    have hsize : c.utf8Size = bs.length + 1 := by
      rw [← String.length_utf8EncodeChar, he, List.length_cons]
    rw [List.flatMap_cons]
    rcases Nat.eq_zero_or_pos i with rfl | hi
    · exact ⟨fun _ => ⟨[], List.nil_prefix, rfl⟩, fun _ => isCharBoundary_zero _⟩
    rcases Nat.lt_or_ge i c.utf8Size with hin | hout
    · -- inside the first character: a continuation byte, and no prefix ends there
      constructor
      · intro hbd
        have hx : (b :: bs ++ l.flatMap String.utf8EncodeChar)[i]? = bs[i - 1]? := by
          rw [List.cons_append, List.getElem?_cons, if_neg (by omega),
            List.getElem?_append_left (by omega)]
        obtain ⟨x, hx'⟩ : ∃ x, bs[i - 1]? = some x := ⟨_, List.getElem?_eq_getElem (by omega)⟩
        simp only [isCharBoundary, he, hx, hx', htail x (List.mem_of_getElem? hx'),
          Bool.not_true, Bool.or_false, beq_iff_eq] at hbd
        omega
      · rintro ⟨p, hp, rfl⟩
        cases p with
        | nil => simp at hi
        | cons d p =>
          obtain ⟨rfl, -⟩ := List.cons_prefix_cons.1 hp
          rw [String.utf8Len_cons] at hin
          omega
    · -- from the end of the first character on: the boundaries of the rest, shifted
      obtain ⟨j, rfl⟩ : ∃ j, i = c.utf8Size + j := ⟨i - c.utf8Size, by omega⟩
      have hshift : isCharBoundary (String.utf8EncodeChar c ++ l.flatMap String.utf8EncodeChar)
          (c.utf8Size + j) = isCharBoundary (l.flatMap String.utf8EncodeChar) j := by
        rcases Nat.eq_zero_or_pos j with rfl | hj
        · cases hr : (l.flatMap String.utf8EncodeChar)[0]? with
          | none =>
            have hnil : l.flatMap String.utf8EncodeChar = [] := List.getElem?_eq_none_iff.1 hr
              |> Nat.le_zero.1 |> List.length_eq_zero_iff.1
            simp [isCharBoundary, hnil, he, hsize]
          | some x =>
            have hx : (String.utf8EncodeChar c ++ l.flatMap String.utf8EncodeChar)[c.utf8Size]? =
                some x := by
              rw [List.getElem?_append_right (by simp), String.length_utf8EncodeChar,
                Nat.sub_self, hr]
            simp [isCharBoundary, hx, head_lead l hr]
        · rw [← String.length_utf8EncodeChar, isCharBoundary_append hj]
      rw [hshift, ih]
      constructor
      · rintro ⟨p, hp, hlen⟩
        exact ⟨c :: p, List.cons_prefix_cons.2 ⟨rfl, hp⟩, by rw [String.utf8Len_cons, hlen,
          Nat.add_comm]⟩
      · rintro ⟨p, hp, hlen⟩
        cases p with
        | nil => simp at hlen; omega
        | cons d p =>
          obtain ⟨rfl, hp'⟩ := List.cons_prefix_cons.1 hp
          exact ⟨p, hp', by rw [String.utf8Len_cons] at hlen; omega⟩

theorem takeBytes_utf8Len {p l : List Char} (h : p <+: l) : takeBytes l (String.utf8Len p) = p := by
  induction p generalizing l with
  | nil =>
    cases l with
    | nil => rfl
    | cons c l =>
      have := c.utf8Size_pos
      simp [takeBytes, String.utf8Len_nil]
      omega
  | cons d p ih =>
    obtain ⟨l', rfl⟩ : ∃ l', l = d :: l' := by
      obtain ⟨r, rfl⟩ := h
      exact ⟨p ++ r, rfl⟩
    have hp := (List.cons_prefix_cons.1 h).2
    simp [takeBytes, String.utf8Len_cons, ih hp]

theorem prefix_of_utf8Len_le {p q l : List Char} (hp : p <+: l) (hq : q <+: l)
    (h : String.utf8Len p ≤ String.utf8Len q) : p <+: q := by
  rcases List.prefix_or_prefix_of_prefix hp hq with hpq | ⟨r, rfl⟩
  · exact hpq
  · rw [String.utf8Len_append] at h
    have hr : r = [] := String.utf8Len_eq_zero.1 (by omega)
    rw [hr, List.append_nil]

end Utf8

namespace Wire

/-! ## The walk down -/

section CutEnd

variable (bs : Bytes) (max : Nat)

theorem cutEnd_le : ∀ n, cutEnd bs max n ≤ n
  | 0 => le_refl 0
  | n + 1 => by
    unfold cutEnd
    split
    · exact le_refl _
    · exact Nat.le_succ_of_le (cutEnd_le n)

theorem cutEnd_stops : ∀ n, cutEnd bs max n = 0 ∨
    (prefixedLen (cutEnd bs max n) ≤ max ∧ Utf8.isCharBoundary bs (cutEnd bs max n) = true)
  | 0 => .inl rfl
  | n + 1 => by
    unfold cutEnd
    split
    · rename_i h
      exact .inr h
    · exact cutEnd_stops n

variable {bs max}

theorem le_cutEnd {k : Nat} (hfit : prefixedLen k ≤ max) (hb : Utf8.isCharBoundary bs k = true) :
    ∀ {n}, k ≤ n → k ≤ cutEnd bs max n
  | 0, hk => hk
  | n + 1, hk => by
    unfold cutEnd
    split
    · exact hk
    · rename_i hstop
      rcases Nat.lt_or_ge k (n + 1) with hlt | hge
      · exact le_cutEnd hfit hb (by omega)
      · obtain rfl : k = n + 1 := by omega
        exact absurd ⟨hfit, hb⟩ hstop

end CutEnd

/-- `r` is the longest prefix of whole characters of `s` that takes at most `max` bytes behind
its length prefix: a prefix of `s` that fits, of which every prefix of `s` that fits is a
prefix. -/
structure LongestFit (s : String) (max : Nat) (r : String) : Prop where
  front : r.toList <+: s.toList
  fits : prefixedLen r.utf8ByteSize ≤ max
  longest : ∀ p, p <+: s.toList → prefixedLen (String.utf8Len p) ≤ max → p <+: r.toList

theorem LongestFit.unique {s r r₂ : String} {max : Nat} (h : LongestFit s max r)
    (h₂ : LongestFit s max r₂) : r = r₂ := by
  have hr := h₂.longest r.toList h.front
    (by rw [← String.utf8ByteSize_ofList, String.ofList_toList]; exact h.fits)
  have hr₂ := h.longest r₂.toList h₂.front
    (by rw [← String.utf8ByteSize_ofList, String.ofList_toList]; exact h₂.fits)
  exact String.toList_inj.1 (hr.eq_of_length (le_antisymm hr.length_le hr₂.length_le))

theorem truncateText_longestFit (s : String) {max : Nat} (h : 1 ≤ max) :
    LongestFit s max (truncateText s max) := by
  -- the walk stops at a boundary that fits, the byte length of some prefix `p₀`
  have hstop : prefixedLen (cutEnd (Utf8.encode s) max (Utf8.encode s).length) ≤ max ∧
      Utf8.isCharBoundary (Utf8.encode s) (cutEnd (Utf8.encode s) max (Utf8.encode s).length) :=
    (cutEnd_stops _ max _).elim (fun h0 => by rw [h0]; exact ⟨by simpa using h, by simp⟩) id
  rw [Utf8.encode_eq] at hstop
  obtain ⟨p₀, hp₀, hlen⟩ := (Utf8.isCharBoundary_iff s.toList _).1 hstop.2
  have hr : (truncateText s max).toList = p₀ := by
    simp only [truncateText, String.toList_ofList]
    rw [Utf8.encode_eq, ← hlen, Utf8.takeBytes_utf8Len hp₀]
  refine ⟨hr ▸ hp₀, ?_, fun p hp hpfit => ?_⟩
  · rw [← String.ofList_toList (s := truncateText s max), String.utf8ByteSize_ofList, hr, hlen]
    exact hstop.1
  · -- a prefix that fits ends at a boundary the walk passes before it stops
    have hb := (Utf8.isCharBoundary_iff s.toList _).2 ⟨p, hp, rfl⟩
    have hle : String.utf8Len p ≤ (s.toList.flatMap String.utf8EncodeChar).length := by
      rw [Utf8.length_flatMap_encodeChar]
      obtain ⟨r, hr⟩ := hp
      rw [← hr, String.utf8Len_append]
      exact Nat.le_add_right _ _
    have hcut := le_cutEnd hpfit hb hle
    rw [← hlen] at hcut
    exact hr ▸ Utf8.prefix_of_utf8Len_le hp hp₀ hcut

theorem length_putText_truncateText {v : Varint} (hv : v.IsLeb128) (s : String) {max : Nat}
    (h : 1 ≤ max) : (putTextWith v (truncateText s max)).length ≤ max := by
  rw [length_putTextWith hv, length_encode]
  exact (truncateText_longestFit s h).fits

theorem truncateText_zero (s : String) : truncateText s 0 = "" := by
  have hcut : ∀ n, cutEnd (Utf8.encode s) 0 n = 0 := by
    intro n
    induction n with
    | zero => rfl
    | succ n ih =>
      have hpos : ¬ prefixedLen (n + 1) ≤ 0 := by simp [prefixedLen]
      simp [cutEnd, hpos, ih]
  simp only [truncateText, hcut]
  cases s.toList with
  | nil => rfl
  | cons c cs =>
    have := c.utf8Size_pos
    simp [Utf8.takeBytes, Nat.not_le.2 this]

end Wire

namespace Payload

/-- The reason a Disconnect carries is the longest prefix of whole characters of the given one
whose length-prefixed form takes at most `max` bytes; written behind a LEB128 length prefix it
fits `max` bytes. So the Disconnect that finishing a connection writes fits the control payload
of settings the guard accepts. -/
theorem disconnectReason_longest_fit {v : Wire.Varint} (hv : v.IsLeb128) (reason : String)
    {max : Nat} (h : 1 ≤ max) :
    Wire.LongestFit reason max (disconnectReason reason max) ∧
      (Wire.putTextWith v (disconnectReason reason max)).length ≤ max ∧
      ∀ s : Settings, s.validate = .ok () →
        (Wire.putTextWith v (disconnectReason reason s.maxPayload)).length ≤ s.maxPayload := by
  refine ⟨Wire.truncateText_longestFit reason h, Wire.length_putText_truncateText hv reason h,
    fun s hs => ?_⟩
  -- finishing a disconnect cuts the reason to the control payload, which accepted settings keep
  -- at a hundred bytes less the longest header at least
  exact Wire.length_putText_truncateText hv reason
    (le_trans (by decide) (Settings.sized_of_validate hs).maxPayload_ge)

theorem disconnectReason_longest_fit_multibyte :
    Wire.Varint.leb128.IsLeb128 ∧ 1 ≤ 3 ∧ Wire.LongestFit "aüb" 3 (disconnectReason "aüb" 3) ∧
      (Wire.putText (disconnectReason "aüb" 3)).length ≤ 3 ∧
      ∀ s : Settings, s.validate = .ok () →
        (Wire.putText (disconnectReason "aüb" s.maxPayload)).length ≤ s.maxPayload :=
  ⟨Wire.Varint.isLeb128_leb128, by decide,
    disconnectReason_longest_fit Wire.Varint.isLeb128_leb128 "aüb" (by decide)⟩

example : disconnectReason "aüb" 3 = "a" := by decide +kernel

example : disconnectReason "goodbye" 4 = "goo" := by decide +kernel

end Payload
end ReliableUdp
