import ReliableUdp.Bench.Doc

/-!
# Reading a request line

One line of JSON, read byte by byte, with errors at `line 1 column c`. Numbers keep the
reader's own arithmetic: a 64-bit significand times a power of ten, one rounding more than the
nearest double, so `0.9999999999999999` reads as `1.0`. Nesting stops at 127 levels.
-/

namespace ReliableUdp
namespace Bench
namespace Json

inductive Code where
  | eofValue
  | eofList
  | eofObject
  | eofString
  | expectedColon
  | expectedListCommaOrEnd
  | expectedObjectCommaOrEnd
  | expectedIdent
  | expectedValue
  | invalidEscape
  | invalidNumber
  | numberOutOfRange
  | controlCharacter
  | keyMustBeAString
  | loneLeadingSurrogate
  | trailingComma
  | trailingCharacters
  | unexpectedEndOfHexEscape
  | recursionLimit
  deriving DecidableEq, Repr

def Code.text : Code → String
  | .eofValue => "EOF while parsing a value"
  | .eofList => "EOF while parsing a list"
  | .eofObject => "EOF while parsing an object"
  | .eofString => "EOF while parsing a string"
  | .expectedColon => "expected `:`"
  | .expectedListCommaOrEnd => "expected `,` or `]`"
  | .expectedObjectCommaOrEnd => "expected `,` or `\x7d`"
  | .expectedIdent => "expected ident"
  | .expectedValue => "expected value"
  | .invalidEscape => "invalid escape"
  | .invalidNumber => "invalid number"
  | .numberOutOfRange => "number out of range"
  | .controlCharacter => "control character (\\u0000-\\u001F) found while parsing a string"
  | .keyMustBeAString => "key must be a string"
  | .loneLeadingSurrogate => "lone leading surrogate in hex escape"
  | .trailingComma => "trailing comma"
  | .trailingCharacters => "trailing characters"
  | .unexpectedEndOfHexEscape => "unexpected end of hex escape"
  | .recursionLimit => "recursion limit exceeded"

abbrev Err := Code × Nat

abbrev Read α := Except Err (α × List UInt8 × Nat)

def peekColumn (cs : List UInt8) (p : Nat) : Nat := if cs.isEmpty then p else p + 1

def isDigit (c : UInt8) : Bool := 0x30 ≤ c && c ≤ 0x39

def digit (c : UInt8) : Nat := c.toNat - 0x30

def isSpace (c : UInt8) : Bool := c == 0x20 || c == 0x0A || c == 0x09 || c == 0x0D

def skipSpace : List UInt8 → Nat → List UInt8 × Nat
  | c :: cs, p => if isSpace c then skipSpace cs (p + 1) else (c :: cs, p)
  | [], p => ([], p)

/-! ## Numbers -/

def u64Max : Nat := Nat.pow 2 64 - 1

def overflows (sig d : Nat) : Bool := sig ≥ u64Max / 10 && (sig > u64Max / 10 || d > u64Max % 10)

def exponentOverflows (e d : Nat) : Bool := e ≥ 214748364 && (e > 214748364 || d > 7)

def saturate (e : Int) : Int := max (-2147483648) (min 2147483647 e)

def nearest (n : Nat) : Float :=
  if n < Nat.pow 2 64 then (UInt64.ofNat n).toFloat
  else
    let s := n.log2 - 63
    let sticky := if n % Nat.pow 2 s = 0 then 0 else 1
    (UInt64.ofNat (n >>> s ||| sticky)).toFloat.scaleB s

def pow10 (k : Nat) : Float := nearest (Nat.pow 10 k)

def divPow10 (f : Float) (e : Nat) : Float :=
  if e ≤ 308 then f / pow10 e
  else if f == 0.0 then f
  else divPow10 (f / pow10 308) (e - 308)
termination_by e
decreasing_by omega

def fromParts (positive : Bool) (sig : Nat) (e : Int) : Option Float :=
  let f := nearest sig
  let r : Option Float :=
    if e ≥ 0 then
      if e.toNat ≤ 308 then
        let g := f * pow10 e.toNat
        if g.isInf then none else some g
      else if f == 0.0 then some f
      else none
    else some (divPow10 f e.natAbs)
  r.map fun x => if positive then x else -x

def finish (positive : Bool) (sig : Nat) (e : Int) (cs : List UInt8) (p : Nat) : Read Doc :=
  match fromParts positive sig e with
  | some x => .ok (.float x, cs, p)
  | none => .error (.numberOutOfRange, p)

def skipDigits : List UInt8 → Nat → List UInt8 × Nat
  | c :: cs, p => if isDigit c then skipDigits cs (p + 1) else (c :: cs, p)
  | [], p => ([], p)

def exponentDigits (positive : Bool) (sig : Nat) (start : Int) (up : Bool) (acc : Nat) :
    List UInt8 → Nat → Read Doc
  | c :: cs, p =>
    if isDigit c then
      if exponentOverflows acc (digit c) then
        if sig ≠ 0 && up then .error (.numberOutOfRange, p + 1)
        else
          let (rest, q) := skipDigits cs (p + 1)
          .ok (.float (if positive then 0.0 else -0.0), rest, q)
      else exponentDigits positive sig start up (acc * 10 + digit c) cs (p + 1)
    else finish positive sig (saturate (if up then start + acc else start - acc)) (c :: cs) p
  | [], p => finish positive sig (saturate (if up then start + acc else start - acc)) [] p

def exponent (positive : Bool) (sig : Nat) (start : Int) (cs : List UInt8) (p : Nat) : Read Doc :=
  let (up, cs, p) := match cs with
    | 0x2B :: r => (true, r, p + 1)
    | 0x2D :: r => (false, r, p + 1)
    | r => (true, r, p)
  match cs with
  | [] => .error (.eofValue, p)
  | c :: r =>
    if isDigit c then exponentDigits positive sig start up (digit c) r (p + 1)
    else .error (.invalidNumber, p + 1)

def isE (c : UInt8) : Bool := c == 0x65 || c == 0x45

def fractionOverflow (positive : Bool) (sig : Nat) (e : Int) (cs : List UInt8) (p : Nat) :
    Read Doc :=
  match skipDigits cs p with
  | (c :: r, q) => if isE c then exponent positive sig e r (q + 1) else finish positive sig e (c :: r) q
  | ([], q) => finish positive sig e [] q

def fraction (positive : Bool) (sig : Nat) (before after : Int) : List UInt8 → Nat → Read Doc
  | c :: cs, p =>
    if isDigit c then
      if overflows sig (digit c) then fractionOverflow positive sig (before + after) (c :: cs) p
      else fraction positive (sig * 10 + digit c) before (after - 1) cs (p + 1)
    else if after = 0 then .error (.invalidNumber, p + 1)
    else if isE c then exponent positive sig (before + after) cs (p + 1)
    else finish positive sig (before + after) (c :: cs) p
  | [], p =>
    if after = 0 then .error (.eofValue, p)
    else finish positive sig (before + after) [] p

def longInteger (positive : Bool) (sig : Nat) (e : Int) : List UInt8 → Nat → Read Doc
  | c :: cs, p =>
    if isDigit c then longInteger positive sig (e + 1) cs (p + 1)
    else if c == 0x2E then fraction positive sig e 0 cs (p + 1)
    else if isE c then exponent positive sig e cs (p + 1)
    else finish positive sig e (c :: cs) p
  | [], p => finish positive sig e [] p

def integerEnd (positive : Bool) (sig : Nat) : List UInt8 → Nat → Read Doc
  | c :: cs, p =>
    if c == 0x2E then fraction positive sig 0 0 cs (p + 1)
    else if isE c then exponent positive sig 0 cs (p + 1)
    else integerValue positive sig (c :: cs) p
  | [], p => integerValue positive sig [] p
where
  integerValue (positive : Bool) (sig : Nat) (cs : List UInt8) (p : Nat) : Read Doc :=
    if positive then .ok (.nat sig, cs, p)
    else if sig = 0 then .ok (.float (-0.0), cs, p)
    else if sig ≤ Nat.pow 2 63 then .ok (.neg (-(sig : Int)), cs, p)
    else .ok (.float (-(nearest sig)), cs, p)

def integerDigits (positive : Bool) (sig : Nat) : List UInt8 → Nat → Read Doc
  | c :: cs, p =>
    if isDigit c then
      if overflows sig (digit c) then longInteger positive sig 0 (c :: cs) p
      else integerDigits positive (sig * 10 + digit c) cs (p + 1)
    else integerEnd positive sig (c :: cs) p
  | [], p => integerEnd positive sig [] p

def number (positive : Bool) : List UInt8 → Nat → Read Doc
  | [], p => .error (.eofValue, p)
  | c :: cs, p =>
    if c == 0x30 then
      match cs with
      | d :: _ => if isDigit d then .error (.invalidNumber, p + 2) else integerEnd positive 0 cs (p + 1)
      | [] => integerEnd positive 0 [] (p + 1)
    else if isDigit c then integerDigits positive (digit c) cs (p + 1)
    else .error (.invalidNumber, p + 1)

/-! ## Strings -/

def hexValue (c : UInt8) : Option Nat :=
  if isDigit c then some (digit c)
  else if 0x61 ≤ c && c ≤ 0x66 then some (c.toNat - 0x61 + 10)
  else if 0x41 ≤ c && c ≤ 0x46 then some (c.toNat - 0x41 + 10)
  else none

def hex4 (a b c d : UInt8) : Option Nat := do
  pure ((← hexValue a) * 4096 + (← hexValue b) * 256 + (← hexValue c) * 16 + (← hexValue d))

def utf8Rev (n : Nat) : List UInt8 :=
  let b := fun (k : Nat) => UInt8.ofNat k
  if n < 0x80 then [b n]
  else if n < 0x800 then [b (0x80 + n % 64), b (0xC0 + n / 64)]
  else if n < 0x10000 then [b (0x80 + n % 64), b (0x80 + n / 64 % 64), b (0xE0 + n / 4096)]
  else [b (0x80 + n % 64), b (0x80 + n / 64 % 64), b (0x80 + n / 4096 % 64), b (0xF0 + n / 262144)]

def simpleEscape : UInt8 → Option UInt8
  | 0x22 => some 0x22
  | 0x5C => some 0x5C
  | 0x2F => some 0x2F
  | 0x62 => some 0x08
  | 0x66 => some 0x0C
  | 0x6E => some 0x0A
  | 0x72 => some 0x0D
  | 0x74 => some 0x09
  | _ => none

def stringBytes (acc : List UInt8) : List UInt8 → Nat → Read (List UInt8)
  | [], p => .error (.eofString, p)
  | c :: cs, p =>
    if c == 0x22 then .ok (acc.reverse, cs, p + 1)
    else if c == 0x5C then
      match cs with
      | [] => .error (.eofString, p + 1)
      | 0x75 :: r =>
        match r with
        | a :: b :: c :: d :: r =>
          match hex4 a b c d with
          | none => .error (.invalidEscape, p + 6)
          | some n =>
            if 0xDC00 ≤ n && n ≤ 0xDFFF then .error (.loneLeadingSurrogate, p + 6)
            else if n < 0xD800 || n > 0xDBFF then stringBytes (utf8Rev n ++ acc) r (p + 6)
            else
              match r with
              | [] => .error (.eofString, p + 6)
              | 0x5C :: r =>
                match r with
                | [] => .error (.eofString, p + 7)
                | 0x75 :: r =>
                  match r with
                  | a :: b :: c :: d :: r =>
                    match hex4 a b c d with
                    | none => .error (.invalidEscape, p + 12)
                    | some m =>
                      if m < 0xDC00 || m > 0xDFFF then .error (.loneLeadingSurrogate, p + 12)
                      else
                        let cp := (n - 0xD800) * 1024 + (m - 0xDC00) + 0x10000
                        stringBytes (utf8Rev cp ++ acc) r (p + 12)
                  | r => .error (.eofString, p + 8 + r.length)
                | _ :: _ => .error (.unexpectedEndOfHexEscape, p + 8)
              | _ :: _ => .error (.unexpectedEndOfHexEscape, p + 7)
        | r => .error (.eofString, p + 2 + r.length)
      | e :: r =>
        match simpleEscape e with
        | some x => stringBytes (x :: acc) r (p + 2)
        | none => .error (.invalidEscape, p + 2)
    else if c < 0x20 then .error (.controlCharacter, p + 1)
    else stringBytes (c :: acc) cs (p + 1)

def string (cs : List UInt8) (p : Nat) : Read String :=
  match stringBytes [] cs p with
  | .ok (bs, rest, q) => .ok ((String.fromUTF8? ⟨bs.toArray⟩).getD "", rest, q)
  | .error e => .error e

/-! ## Values -/

def literal (d : Doc) : List UInt8 → List UInt8 → Nat → Read Doc
  | [], cs, p => .ok (d, cs, p)
  | _ :: _, [], p => .error (.eofValue, p)
  | x :: xs, c :: cs, p => if c == x then literal d xs cs (p + 1) else .error (.expectedIdent, p + 1)

def setField (fs : List (String × Doc)) (k : String) (v : Doc) : List (String × Doc) :=
  fs.filter (·.1 != k) ++ [(k, v)]

mutual
/-- A value; `depth` nested arrays and objects may still open. -/
def value (fuel depth : Nat) (cs : List UInt8) (p : Nat) : Read Doc :=
  match fuel with
  | 0 => .error (.eofValue, p)
  | fuel + 1 =>
    let (cs, p) := skipSpace cs p
    match cs with
    | [] => .error (.eofValue, p)
    | c :: r =>
      if c == 0x6E then literal .null [0x75, 0x6C, 0x6C] r (p + 1)
      else if c == 0x74 then literal (.bool true) [0x72, 0x75, 0x65] r (p + 1)
      else if c == 0x66 then literal (.bool false) [0x61, 0x6C, 0x73, 0x65] r (p + 1)
      else if c == 0x2D then number false r (p + 1)
      else if isDigit c then number true (c :: r) p
      else if c == 0x22 then
        match string r (p + 1) with
        | .ok (s, rest, q) => .ok (.str s, rest, q)
        | .error e => .error e
      else if c == 0x5B then
        if depth ≤ 1 then .error (.recursionLimit, p + 1)
        else
          match items fuel (depth - 1) true [] r (p + 1) with
          | .ok (xs, rest, q) => .ok (.arr xs, rest, q)
          | .error e => .error e
      else if c == 0x7B then
        if depth ≤ 1 then .error (.recursionLimit, p + 1)
        else
          match members fuel (depth - 1) true [] r (p + 1) with
          | .ok (fs, rest, q) =>
            .ok (.obj (fs.mergeSort fun a b => !(b.1 < a.1)), rest, q)
          | .error e => .error e
      else .error (.expectedValue, p + 1)

def items (fuel depth : Nat) (first : Bool) (acc : List Doc) (cs : List UInt8) (p : Nat) :
    Read (List Doc) :=
  match fuel with
  | 0 => .error (.eofList, p)
  | fuel + 1 =>
    let (cs, p) := skipSpace cs p
    match cs with
    | [] => .error (.eofList, p)
    | c :: r =>
      if c == 0x5D then .ok (acc.reverse, r, p + 1)
      else
        let next : Except Err (List UInt8 × Nat) :=
          if first then .ok (c :: r, p)
          else if c == 0x2C then
            match skipSpace r (p + 1) with
            | (0x5D :: _, q) => .error (.trailingComma, q + 1)
            | ([], q) => .error (.eofValue, q)
            | (rest, q) => .ok (rest, q)
          else .error (.expectedListCommaOrEnd, p + 1)
        match next with
        | .error e => .error e
        | .ok (cs, p) =>
          match value fuel depth cs p with
          | .ok (v, rest, q) => items fuel depth false (v :: acc) rest q
          | .error e => .error e

def members (fuel depth : Nat) (first : Bool) (acc : List (String × Doc)) (cs : List UInt8)
    (p : Nat) : Read (List (String × Doc)) :=
  match fuel with
  | 0 => .error (.eofObject, p)
  | fuel + 1 =>
    let (cs, p) := skipSpace cs p
    match cs with
    | [] => .error (.eofObject, p)
    | c :: r =>
      if c == 0x7D then .ok (acc, r, p + 1)
      else
        let key : Except Err (List UInt8 × Nat) :=
          if c == 0x2C && !first then .ok (skipSpace r (p + 1))
          else if first then .ok (c :: r, p)
          else .error (.expectedObjectCommaOrEnd, p + 1)
        match key with
        | .error e => .error e
        | .ok ([], q) => .error (.eofValue, q)
        | .ok (k :: r, q) =>
          if k == 0x22 then
            match string r (q + 1) with
            | .error e => .error e
            | .ok (name, rest, q) =>
              match skipSpace rest q with
              | (0x3A :: rest, q) =>
                match value fuel depth rest (q + 1) with
                | .ok (v, rest, q) => members fuel depth false (setField acc name v) rest q
                | .error e => .error e
              | ([], q) => .error (.eofObject, q)
              | (_ :: _, q) => .error (.expectedColon, q + 1)
          else if k == 0x7D then .error (.trailingComma, q + 1)
          else .error (.keyMustBeAString, q + 1)
end

/-- A whole line: one value, then only blanks. -/
def parse (line : String) : Except String Doc :=
  let cs := line.toUTF8.toList
  let result : Except Err Doc :=
    match value (2 * cs.length + 8) 128 cs 0 with
    | .error e => .error e
    | .ok (d, rest, q) =>
      match skipSpace rest q with
      | ([], _) => .ok d
      | (_ :: _, q) => .error (.trailingCharacters, q + 1)
  match result with
  | .ok d => .ok d
  | .error (code, col) => .error s!"{code.text} at line 1 column {col}"

end Json
end Bench
end ReliableUdp
