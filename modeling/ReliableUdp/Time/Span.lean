import ReliableUdp.Crash

/-!
# Spans of time

Spans are whole nanoseconds below `2^64` seconds and instants below `2^63` seconds; sums and
multiples past those ranges crash. Seconds given as a double round to the nearest nanosecond,
a tie going to the even one.
-/

namespace ReliableUdp
namespace Span

def nsPerSec : Nat := 1000000000

def limit : Nat := Nat.pow 2 64 * nsPerSec

def ofMillis (ms : Nat) : Nat := ms * 1000000

def toMillis (ns : Nat) : Nat := ns / 1000000

def add (a b : Nat) : Except Crash Nat :=
  if a + b < limit then .ok (a + b) else .error .spanAddOverflow

/-- Instants are below `2^63` seconds past the start of the clock. -/
def instantLimit : Nat := Nat.pow 2 63 * nsPerSec

def after (now d : Nat) : Except Crash Nat :=
  if now + d < instantLimit then .ok (now + d) else .error .instantOverflow

def mulCount (a n : Nat) : Except Crash Nat :=
  if a * n < limit then .ok (a * n) else .error .spanMulOverflow

def roundHalfEven (num den : Nat) : Nat :=
  let q := num / den
  let r := num % den
  if 2 * r > den then q + 1
  else if 2 * r < den then q
  else if q % 2 = 0 then q else q + 1

def ofSeconds (x : Float) : Except Crash Nat :=
  if x < 0.0 then .error .secondsNegative
  else
    let b := x.toBits.toNat
    let frac : Nat := b % Nat.pow 2 52
    let ex : Nat := b / Nat.pow 2 52 % 2048
    if ex ≥ 1023 + 64 then .error .secondsOutOfRange
    else
      let m := if ex = 0 then frac else frac + Nat.pow 2 52
      let e : Int := (if ex = 0 then 1 else (ex : Int)) - 1075
      if e ≥ 0 then .ok (m * Nat.pow 2 e.toNat * nsPerSec)
      else .ok (roundHalfEven (m * nsPerSec) (Nat.pow 2 (-e).toNat))

def toSeconds (ns : Nat) : Float :=
  Float.ofNat (ns / nsPerSec) + Float.ofNat (ns % nsPerSec) / 1000000000.0

def scale (ns : Nat) (factor : Float) : Except Crash Nat := ofSeconds (factor * toSeconds ns)

end Span
end ReliableUdp
