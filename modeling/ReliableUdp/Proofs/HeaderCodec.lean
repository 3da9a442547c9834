import ReliableUdp.Proofs.Packing
import ReliableUdp.Proofs.Safety.Bounds

/-!
# The header codec is a bijection onto well-formed headers

Whatever the decoder returns, on any input, is well formed, and a well-formed header reads back
from its encoding (`Header.decode_inverts_encode`).
-/

namespace ReliableUdp

theorem Wire.readU16_gives : Reader.Gives readU16 (· < 65536) := by
  intro bs v rest h
  match bs with
  | a :: b :: _ =>
    simp only [readU16, Except.ok.injEq, Prod.mk.injEq] at h
    have ha := a.toNat_lt
    have hb := b.toNat_lt
    omega
  | [] => simp [readU16] at h
  | [_] => simp [readU16] at h

theorem Header.readLen_gives : Reader.Gives readLen (· ≤ maxPayload) := by
  unfold readLen maxPayload
  refine .bind .any fun first _ => ?_
  split
  · exact .pure (by omega)
  · refine .bind .any fun second _ => .pure ?_
    have := second.toNat_lt
    omega

theorem FragmentTag.decode_gives_wellFormed : Reader.Gives decode WellFormed := by
  unfold decode
  refine .bind Wire.readU16_gives fun group hg => ?_
  refine .bind Wire.readU16_gives fun total ht => ?_
  refine .bind Wire.readU16_gives fun index _ => ?_
  -- the last step refuses an index past the count
  split
  · exact .throw_bind
  · rename_i hit
    exact .pure ⟨Nat.lt_of_not_le hit, ht, hg⟩

theorem Header.decode_gives_wellFormed : Reader.Gives decode WellFormed := by
  unfold decode
  refine .bind .any fun t _ => ?_
  extract_lets raw jpKind
  -- each optional part is read exactly when the type byte asks for it; the parts are taken one
  -- join point at a time, each proved for every value its part may give
  have hKind : ∀ kind, kind.Valid → Reader.Gives (jpKind kind) WellFormed := by
    intro kind hk
    simp -zeta only [jpKind]
    extract_lets jpControl
    have hControl : ∀ control : Option Control, (control.isSome ↔ kind = .control) →
        Reader.Gives (jpControl control) WellFormed := by
      intro control hc
      simp -zeta only [jpControl]
      extract_lets jpSeq
      have hSeq : ∀ seq : Option Seq, (seq.isSome ↔ kind.hasSeq = true) →
          Reader.Gives (jpSeq seq) WellFormed := by
        intro seq hs
        simp -zeta only [jpSeq]
        refine .bind readLen_gives fun len hl => ?_
        extract_lets jpFragment
        have hFragment : ∀ fragment : Option FragmentTag, (∀ f ∈ fragment, f.WellFormed) →
            Reader.Gives (jpFragment fragment) WellFormed :=
          fun fragment hf => .pure ⟨hk, hc, hs, hl, hf⟩
        split
        · refine .bind FragmentTag.decode_gives_wellFormed fun f hf => ?_
          exact .bind (.pure (P := fun o => ∀ g ∈ o, g.WellFormed) (by simpa using hf)) hFragment
        · exact .bind (.pure (by simp)) hFragment
      split
      · rename_i hseq
        refine .bind .any fun _ _ => ?_
        exact .bind (.pure (P := fun o => (o.isSome ↔ kind.hasSeq = true)) (by simp [hseq])) hSeq
      · rename_i hseq
        exact .bind (.pure (by simpa using hseq)) hSeq
    split
    · rename_i hkc
      refine .bind .any fun _ _ => ?_
      split
      · exact .bind (.pure (P := fun o => (o.isSome ↔ kind = .control)) (by simp [hkc])) hControl
      · exact .throw_bind
    · rename_i hkc
      exact .bind (.pure (by simpa using hkc)) hControl
  split
  · rename_i k hk
    exact .bind (.pure (Kind.valid_of_ofRaw? hk)) hKind
  · exact .throw_bind

/-- A header is written in exactly `encodedLen` bytes; a well-formed header reads back from
them, whatever follows; and every header read off any bytes is well formed. -/
theorem Header.decode_inverts_encode :
    (∀ h : Header, h.encode.length = h.encodedLen) ∧
      (∀ h : Header, h.WellFormed → ∀ rest, decode (h.encode ++ rest) = .ok (h, rest)) ∧
      ∀ bs h rest, decode bs = .ok (h, rest) → h.WellFormed :=
  ⟨length_encode, fun _ hw rest => decode_encode hw rest,
    fun bs _ rest hd => decode_gives_wellFormed bs _ rest hd⟩

theorem Header.decode_inverts_encode_fragment :
    let h : Header :=
      { kind := .user .reliableUnordered 0, seq := some (Seq.ofNat 7), payloadLen := 3,
        fragment := some { group := 9, total := 4, index := 2 } }
    h.encode = [163, 7, 0, 3, 9, 0, 4, 0, 2, 0] ∧ h.encode.length = h.encodedLen ∧
      decode (h.encode ++ [1]) = .ok (h, [1]) ∧ h.WellFormed := by
  intro h
  have hw : h.WellFormed :=
    ⟨by simp [h, Kind.Valid, Delivery.channels], by simp [h], by simp [h, Kind.hasSeq, Kind.toRaw,
      Delivery.base], by simp [h, maxPayload], by simp [h, FragmentTag.WellFormed]⟩
  have hd := decode_inverts_encode.2.1 h hw [1]
  exact ⟨rfl, decode_inverts_encode.1 h, hd, decode_inverts_encode.2.2 _ h [1] hd⟩

end ReliableUdp
