/-!
# Endpoints

IPv4 and IPv6 addresses with a port (and a scope for IPv6), written `a.b.c.d:port` and
`[segments%scope]:port` with the longest zero run as `::`, ordered IPv4 first. Reading accepts
these forms and a little more.
-/

namespace ReliableUdp

inductive Endpoint where
  | v4 (octets : List Nat) (port : Nat)
  | v6 (segments : List Nat) (port : Nat) (scope : Nat)
  deriving DecidableEq, Repr, Inhabited

namespace Endpoint

def localhost (port : Nat) : Endpoint := v4 [127, 0, 0, 1] port

def port : Endpoint → Nat
  | v4 _ p | v6 _ p _ => p

def hexDigits (n : Nat) : String :=
  String.ofList (Nat.toDigits 16 n)

def dotted (os : List Nat) : String := ".".intercalate (os.map toString)

def zeroRun (segs : List Nat) : Option (Nat × Nat) :=
  let step := fun (acc : Option (Nat × Nat) × Nat × Nat × Nat) (s : Nat) =>
    let (best, start, len, i) := acc
    if s = 0 then
      let len := len + 1
      let start := if len = 1 then i else start
      let best := match best with
        | some (_, l) => if len > l then some (start, len) else best
        | none => if len ≥ 2 then some (start, len) else none
      (best, start, len, i + 1)
    else (best, start, 0, i + 1)
  (segs.foldl step (none, 0, 0, 0)).1

def v6Text (segs : List Nat) : String :=
  match segs with
  | [0, 0, 0, 0, 0, 0xffff, hi, lo] => "::ffff:" ++ dotted [hi / 256, hi % 256, lo / 256, lo % 256]
  | _ =>
    match zeroRun segs with
    | some (start, len) =>
      ":".intercalate ((segs.take start).map hexDigits) ++ "::" ++
        ":".intercalate ((segs.drop (start + len)).map hexDigits)
    | none => ":".intercalate (segs.map hexDigits)

def toText : Endpoint → String
  | v4 os p => dotted os ++ ":" ++ toString p
  | v6 segs p scope =>
    "[" ++ v6Text segs ++ (if scope = 0 then "" else "%" ++ toString scope) ++ "]:" ++ toString p

instance : ToString Endpoint := ⟨toText⟩

def key : Endpoint → Nat × List Nat × Nat × Nat
  | v4 os p => (0, os, p, 0)
  | v6 segs p scope => (1, segs, p, scope)

def lexLt : List Nat → List Nat → Bool
  | [], _ :: _ => true
  | a :: as, b :: bs => a < b || (a == b && lexLt as bs)
  | _, _ => false

def lt (a b : Endpoint) : Bool :=
  let (ka, xa, pa, sa) := a.key
  let (kb, xb, pb, sb) := b.key
  ka < kb || (ka == kb && (lexLt xa xb || (xa == xb && (pa < pb || (pa == pb && sa < sb)))))

def digitsOf (radix : Nat) : List Char → List Nat × List Char
  | c :: cs =>
    match hexDigit? c with
    | some d => if d < radix then
        let (ds, rest) := digitsOf radix cs
        (d :: ds, rest)
      else ([], c :: cs)
    | none => ([], c :: cs)
  | [] => ([], [])
where
  hexDigit? (c : Char) : Option Nat :=
    if c.isDigit then some (c.toNat - '0'.toNat)
    else if 'a' ≤ c ∧ c ≤ 'f' then some (c.toNat - 'a'.toNat + 10)
    else if 'A' ≤ c ∧ c ≤ 'F' then some (c.toNat - 'A'.toNat + 10)
    else none

def number (radix bound : Nat) (most : Option Nat) (zeros : Bool) (cs : List Char) :
    Option (Nat × List Char) :=
  let (ds, rest) := digitsOf radix cs
  let value := ds.foldl (fun a d => a * radix + d) 0
  if ds.isEmpty then none
  else if most.any (· < ds.length) then none
  else if !zeros && ds.head? == some 0 && ds.length > 1 then none
  else if value < bound then some (value, rest)
  else none

def expect (c : Char) : List Char → Option (List Char)
  | d :: rest => if c = d then some rest else none
  | [] => none

def separated (c : Char) (i : Nat) (cs : List Char) : Option (List Char) :=
  if i = 0 then some cs else expect c cs

def ipv4 (cs : List Char) : Option (List Nat × List Char) := do
  let (a, cs) ← number 10 256 (some 3) false cs
  let (b, cs) ← number 10 256 (some 3) false (← expect '.' cs)
  let (c, cs) ← number 10 256 (some 3) false (← expect '.' cs)
  let (d, cs) ← number 10 256 (some 3) false (← expect '.' cs)
  pure ([a, b, c, d], cs)

def segmentsFrom (limit i : Nat) (cs : List Char) : List Nat × Bool × List Char :=
  if i < limit then
    let v4 := if i + 1 < limit then (separated ':' i cs).bind ipv4 else none
    match v4 with
    | some ([a, b, c, d], rest) => ([a * 256 + b, c * 256 + d], true, rest)
    | _ =>
      match (separated ':' i cs).bind (number 16 65536 (some 4) true) with
      | some (g, rest) =>
        let (gs, v4, rest) := segmentsFrom limit (i + 1) rest
        (g :: gs, v4, rest)
      | none => ([], false, cs)
  else ([], false, cs)
termination_by limit - i

def ipv6 (cs : List Char) : Option (List Nat × List Char) := do
  let (head, headV4, cs) := segmentsFrom 8 0 cs
  if head.length = 8 then return (head, cs)
  if headV4 then none
  let cs ← expect ':' (← expect ':' cs)
  let (tail, _, cs) := segmentsFrom (8 - (head.length + 1)) 0 cs
  pure (head ++ List.replicate (8 - head.length - tail.length) 0 ++ tail, cs)

def socketV4 (cs : List Char) : Option (Endpoint × List Char) := do
  let (ip, cs) ← ipv4 cs
  let (port, cs) ← number 10 65536 none true (← expect ':' cs)
  pure (v4 ip port, cs)

def socketV6 (cs : List Char) : Option (Endpoint × List Char) := do
  let (ip, cs) ← ipv6 (← expect '[' cs)
  let (scope, cs) := ((expect '%' cs).bind (number 10 (Nat.pow 2 32) none true)).getD (0, cs)
  let (port, cs) ← number 10 65536 none true (← expect ':' (← expect ']' cs))
  pure (v6 ip port scope, cs)

/-- Reads `a.b.c.d:port` or `[v6%scope]:port`, all of the text. -/
def parse? (s : String) : Option Endpoint :=
  match socketV4 s.toList with
  | some (e, []) => some e
  | some _ => none
  | none =>
    match socketV6 s.toList with
    | some (e, []) => some e
    | _ => none

end Endpoint
end ReliableUdp
