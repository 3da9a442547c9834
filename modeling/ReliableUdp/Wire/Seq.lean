/-!
# Sequence numbers

Numbers wrap in a space of 1024 and are compared by their signed distance in `[-512, 512)`:
numbers half the space apart are `-512` from each other in both directions.
-/

namespace ReliableUdp

def seqSpace : Nat := 1024

structure Seq where
  val : Nat
  lt : val < seqSpace := by decide
  deriving DecidableEq, Repr

namespace Seq

def ofNat (v : Nat) : Seq := ⟨v % seqSpace, Nat.mod_lt _ (by decide)⟩

instance : Inhabited Seq := ⟨ofNat 0⟩

def plus (s : Seq) (n : Nat) : Seq := ofNat (s.val + n)

def next (s : Seq) : Seq := s.plus 1

/-- Signed distance `a - b` modulo the space, in `[-512, 512)`. -/
def distance (a b : Seq) : Int :=
  let raw := (a.val + seqSpace - b.val) % seqSpace
  if raw ≥ seqSpace / 2 then (raw : Int) - seqSpace else raw

@[simp] theorem val_ofNat (v : Nat) : (ofNat v).val = v % seqSpace := rfl

theorem ofNat_val (s : Seq) : ofNat s.val = s := by
  cases s with
  | mk v h => simp [ofNat, Nat.mod_eq_of_lt h]

theorem distance_self (s : Seq) : distance s s = 0 := by
  simp [distance, seqSpace]

end Seq
end ReliableUdp
