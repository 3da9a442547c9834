/-!
# Shortest decimal text of a double

For `n = 1, …, 17` digits, the value's neighbours on the `n`-digit grid are tested against the
interval of reals that read back as it, with exact integer arithmetic; the first grid with one
inside gives the digits, laid out positionally for exponents from -5 to 16.
-/

namespace ReliableUdp
namespace Shortest

structure Ratio where
  num : Nat
  den : Nat

def Ratio.le (a b : Ratio) : Bool := a.num * b.den ≤ b.num * a.den

def Ratio.lt (a b : Ratio) : Bool := a.num * b.den < b.num * a.den

def scaled (k : Nat) (e : Int) : Ratio :=
  if e ≥ 0 then ⟨k * Nat.pow 10 e.toNat, 1⟩ else ⟨k, Nat.pow 10 (-e).toNat⟩

def digitCount (n : Nat) : Nat := (Nat.toDigits 10 n).length

def decimalExponent (v : Ratio) : Int :=
  if v.num ≥ v.den then (digitCount (v.num / v.den) : Int) - 1
  else
    -- the smallest `j` with `v · 10^j ≥ 1`; a double needs at most 400
    let j := (List.range 400).find? (fun j => v.num * Nat.pow 10 (j + 1) ≥ v.den) |>.getD 399
    -((j : Int) + 1)

def decompose (bits : UInt64) : Nat × Int × Bool :=
  let b := bits.toNat
  let frac : Nat := b % Nat.pow 2 52
  let ex : Nat := b / Nat.pow 2 52 % 2048
  if ex = 0 then (frac, -1074, false)
  else (frac + Nat.pow 2 52, (ex : Int) - 1075, frac = 0 && ex > 1)

def binary (m : Nat) (q : Int) : Ratio :=
  if q ≥ 0 then ⟨m * Nat.pow 2 q.toNat, 1⟩ else ⟨m, Nat.pow 2 (-q).toNat⟩

/-- Shortest digits `d` and exponent `e` with `d · 10^e` reading back as the double. -/
def digits (bits : UInt64) : Nat × Int :=
  let (m, q, narrow) := decompose bits
  let v := binary m q
  let hi := binary (4 * m + 2) (q - 2)
  let lo := if narrow then binary (4 * m - 1) (q - 2) else binary (4 * m - 2) (q - 2)
  let inside := fun (c : Ratio) =>
    if m % 2 = 0 then lo.le c && c.le hi else lo.lt c && c.lt hi
  let ex := decimalExponent v
  let pick := fun (n : Nat) =>
    let k := ex - n + 1
    let unit := scaled 1 k
    -- `a` is the number of grid units at or below `v`
    let a := (v.num * unit.den) / (v.den * unit.num)
    let below := scaled a k
    let above := scaled (a + 1) k
    match inside below, inside above with
    | true, true =>
      -- distances `v - below` and `above - v`, compared over a common denominator
      let dBelow := v.num * below.den - below.num * v.den
      let dAbove := above.num * v.den - v.num * above.den
      if dBelow * (above.den) < dAbove * (below.den) then some (a, k)
      else if dAbove * (below.den) < dBelow * (above.den) then some (a + 1, k)
      else if a % 2 = 0 then some (a, k) else some (a + 1, k)
    | true, false => some (a, k)
    | false, true => some (a + 1, k)
    | false, false => none
  let found := (List.range 17).findSome? (fun i => pick (i + 1))
  let (d, k) := found.getD (m, q)
  -- strip trailing zeros
  let rec strip (fuel d : Nat) (k : Int) : Nat × Int :=
    match fuel with
    | 0 => (d, k)
    | fuel + 1 => if d ≠ 0 ∧ d % 10 = 0 then strip fuel (d / 10) (k + 1) else (d, k)
  strip 20 d k

def layout (d : Nat) (e : Int) : String :=
  let ds := String.ofList (Nat.toDigits 10 d)
  let len : Int := ds.length
  let kk := len + e
  if 0 ≤ e ∧ kk ≤ 16 then ds ++ String.ofList (List.replicate e.toNat '0') ++ ".0"
  else if 0 < kk ∧ kk ≤ 16 then
    let cut := kk.toNat
    String.ofList (ds.toList.take cut) ++ "." ++ String.ofList (ds.toList.drop cut)
  else if -5 < kk ∧ kk ≤ 0 then "0." ++ String.ofList (List.replicate (-kk).toNat '0') ++ ds
  else
    let expText := toString (kk - 1)
    match ds.toList with
    | [c] => String.ofList [c] ++ "e" ++ expText
    | c :: rest => String.ofList [c] ++ "." ++ String.ofList rest ++ "e" ++ expText
    | [] => "0e0"

def render (x : Float) : String :=
  let bits := x.toBits
  let neg := bits.toNat ≥ Nat.pow 2 63
  let mag := UInt64.ofNat (bits.toNat % Nat.pow 2 63)
  let body := if mag.toNat = 0 then "0.0" else
    let (d, e) := digits mag
    layout d e
  (if neg then "-" else "") ++ body

end Shortest
end ReliableUdp
