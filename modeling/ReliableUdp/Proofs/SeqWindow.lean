import ReliableUdp.Wire.Seq

/-!
# Sequence numbers as residues of send indices

Within half the space the signed distance of two numbers is the difference of their indices;
at exactly half it wraps to `-512`, whichever index is the larger.
-/

namespace ReliableUdp
namespace Seq

theorem ofNat_next (i : Nat) : (ofNat i).next = ofNat (i + 1) := by
  have h : (i % seqSpace + 1) % seqSpace = (i + 1) % seqSpace := by
    simp only [seqSpace]
    omega
  simp only [next, plus, ofNat, h]

theorem ofNat_eq_ofNat_iff {i j : Nat} (h₁ : i < j + seqSpace) (h₂ : j < i + seqSpace) :
    ofNat i = ofNat j ↔ i = j := by
  constructor
  · intro h
    have hv := congrArg Seq.val h
    simp only [val_ofNat, seqSpace] at hv h₁ h₂
    omega
  · rintro rfl
    rfl

theorem distance_ofNat {i d : Nat} (h₁ : d ≤ i + seqSpace / 2) (h₂ : i < d + seqSpace / 2) :
    distance (ofNat i) (ofNat d) = (i : Int) - d := by
  unfold distance
  dsimp only
  split <;> simp only [val_ofNat, seqSpace] at * <;> omega

/-- An index half the space ahead reads as half the space behind. -/
theorem distance_ofNat_half (d : Nat) :
    distance (ofNat (d + seqSpace / 2)) (ofNat d) = -(seqSpace / 2 : Nat) := by
  unfold distance
  dsimp only
  split <;> simp only [val_ofNat, seqSpace] at * <;> omega

end Seq
end ReliableUdp
