import ReliableUdp.Bench.Json
import ReliableUdp.Crash
import ReliableUdp.Net.Endpoint
import ReliableUdp.Wire.Kind
import ReliableUdp.Wire.Bytes

/-!
# Reading requests

A field that is missing, of the wrong shape or out of range makes the request unreadable
(`Failure.badInput`), and a crash of the library stops it (`Failure.crash`).
-/

namespace ReliableUdp
namespace Bench

/-- Why a request produced no report of its own. -/
inductive Failure where
  | badInput (msg : String)
  | crash (c : Crash)
  | splitChar (index : Nat) (c : Char) (start stop : Nat)
  | timeout
  deriving Inhabited

abbrev Run := Except Failure

def bad (msg : String) : Run α := .error (.badInput msg)

def crash (c : Crash) : Run α := .error (.crash c)

def lift : Except Crash α → Run α
  | .ok a => .ok a
  | .error c => .error (.crash c)

def fits (n bits : Nat) (what : String) : Run Nat :=
  if n < Nat.pow 2 bits then pure n else bad s!"field {what} out of u{bits} range"

namespace Doc

def lookup? (d : Doc) (key : String) : Option Doc :=
  match d with
  | obj fields => (fields.find? (·.1 == key)).map (·.2)
  | _ => none

def has (d : Doc) (key : String) : Bool := (d.lookup? key).isSome

def field (d : Doc) (key : String) : Run Doc :=
  match d.lookup? key with
  | some v => pure v
  | none => bad s!"missing field {key}"

def asNat (d : Doc) (what : String) : Run Nat :=
  match d with
  | nat n => pure n
  | _ => bad s!"field {what} must be a non-negative integer"

def natAt (d : Doc) (key : String) : Run Nat := do
  asNat (← d.field key) key

def natOr (d : Doc) (key : String) (dflt : Nat) : Run Nat :=
  match d.get? key with
  | some v => asNat v key
  | none => pure dflt

def natOpt (d : Doc) (key : String) : Run (Option Nat) :=
  match d.get? key with
  | some v => some <$> asNat v key
  | none => pure none

def u16At (d : Doc) (key : String) : Run Nat := do fits (← d.natAt key) 16 key

def u8At (d : Doc) (key : String) : Run Nat := do fits (← d.natAt key) 8 key

def u16Or (d : Doc) (key : String) (dflt : Nat) : Run Nat := do fits (← d.natOr key dflt) 16 key

def asBool (d : Doc) (what : String) : Run Bool :=
  match d with
  | bool b => pure b
  | _ => bad s!"field {what} must be a boolean"

def boolOr (d : Doc) (key : String) (dflt : Bool) : Run Bool :=
  match d.get? key with
  | some v => asBool v key
  | none => pure dflt

def asStr (d : Doc) (what : String) : Run String :=
  match d with
  | str s => pure s
  | _ => bad s!"field {what} must be a string"

def strField (d : Doc) (key : String) : Run String := do
  asStr (← d.field key) key

def strOr (d : Doc) (key : String) (dflt : String) : String :=
  match d.lookup? key with
  | some (str s) => s
  | _ => dflt

def asList (d : Doc) (what : String) : Run (List Doc) :=
  match d with
  | arr xs => pure xs
  | _ => bad s!"field {what} must be an array"

def listField (d : Doc) (key : String) : Run (List Doc) := do
  asList (← d.field key) key

def listOr (d : Doc) (key : String) : Run (List Doc) :=
  match d.get? key with
  | some v => asList v key
  | none => pure []

def itemsOf (d : Doc) (key : String) : List Doc :=
  match d.lookup? key with
  | some (arr xs) => xs
  | _ => []

def asFloat (d : Doc) (what : String) : Run Float :=
  match d with
  | nat n => pure (Json.nearest n)
  | neg n => pure (-(Json.nearest n.natAbs))
  | float x => pure x
  | str "NaN" => pure (0.0 / 0.0)
  | str "inf" => pure (1.0 / 0.0)
  | str "-inf" => pure (-1.0 / 0.0)
  | _ => bad s!"field {what} must be a number"

def floatOr (d : Doc) (key : String) (dflt : Float) : Run Float :=
  match d.get? key with
  | some v => asFloat v key
  | none => pure dflt

def hexDigit? (c : Char) : Option Nat :=
  if c.isDigit then some (c.toNat - '0'.toNat)
  else if 'a' ≤ c ∧ c ≤ 'f' then some (c.toNat - 'a'.toNat + 10)
  else if 'A' ≤ c ∧ c ≤ 'F' then some (c.toNat - 'A'.toNat + 10)
  else none

def hexPiece? : List Char → Option UInt8
  | ['+', b] => do pure (← hexDigit? b).toUInt8
  | [a, b] => do pure ((← hexDigit? a) * 16 + (← hexDigit? b)).toUInt8
  | _ => none

def hexPieces : List Char → Nat → Run Bytes
  | [], _ => pure []
  | c :: rest, pos =>
    if c.utf8Size = 1 then
      match rest with
      | d :: rest' =>
        if d.utf8Size = 1 then do
          match hexPiece? [c, d] with
          | some b => pure (b :: (← hexPieces rest' (pos + 2)))
          | none => bad "bad hex: invalid digit found in string"
        else .error (.splitChar (pos + 2) d (pos + 1) (pos + 1 + d.utf8Size))
      | [] => bad "bad hex: invalid digit found in string"
    else if c.utf8Size = 2 then bad "bad hex: invalid digit found in string"
    else .error (.splitChar (pos + 2) c pos (pos + c.utf8Size))

def hexBytes (s : String) : Run Bytes :=
  if s.utf8ByteSize % 2 = 1 then bad s!"odd hex length {s.utf8ByteSize}"
  else hexPieces s.toList 0

def asBytes (d : Doc) (what : String) : Run Bytes :=
  match d with
  | str s => hexBytes s
  | obj _ => do
    match d.get? "fill" with
    | some n => do
      let n ← asNat n "fill"
      pure ((List.range n).map fun i => (i % 253).toUInt8)
    | none => do
      let unit ← asStr (← d.field "repeat") "repeat"
      let n ← d.natAt "n"
      let bs ← hexBytes unit
      pure (List.flatten (List.replicate n bs))
  | _ => bad "bytes expected"

def bytes (d : Doc) (key : String) : Run Bytes := do
  asBytes (← d.field key) key

def bytesOr (d : Doc) (key : String) : Run Bytes :=
  match d.get? key with
  | some v => asBytes v key
  | none => pure []

def asText (d : Doc) (what : String) : Run String :=
  match d with
  | str s => pure s
  | obj _ => do
    let unit ← asStr (← d.field "repeat") "repeat"
    let n ← d.natAt "n"
    pure (String.join (List.replicate n unit))
  | _ => bad "string expected"

def text (d : Doc) (key : String) : Run String := do
  asText (← d.field key) key

def textOr (d : Doc) (key : String) (dflt : String) : Run String :=
  match d.get? key with
  | some v => asText v key
  | none => pure dflt

def asEndpoint (d : Doc) (what : String) : Run Endpoint :=
  match d with
  | nat p => do pure (Endpoint.localhost (← fits p 16 what))
  | str s => match Endpoint.parse? s with
    | some e => pure e
    | none => bad s!"bad address {s}: invalid socket address syntax"
  | _ => bad s!"field {what} must be an address"

def endpoint (d : Doc) (key : String) : Run Endpoint := do
  asEndpoint (← d.field key) key

def delivery (d : Doc) (key : String) : Run Delivery := do
  let s ← d.strField key
  match Delivery.ofName? s with
  | some m => pure m
  | none => bad s!"unknown delivery method {s}"

end Doc

def hex (bs : Bytes) : String :=
  String.join (bs.map fun b =>
    let h := Nat.toDigits 16 b.toNat
    String.ofList (if h.length < 2 then '0' :: h else h))

/-- Hex up to `limit` bytes; beyond, the length, the first eight bytes and a position-weighted
sum modulo `2^32`. -/
def summaryUpTo (limit : Nat) (bs : Bytes) : String :=
  if bs.length ≤ limit then hex bs
  else
    let (_, sum) := bs.foldl (fun (i, acc) b => (i + 1, (acc + (i + 1) * b.toNat) % Nat.pow 2 32)) (0, 0)
    s!"{bs.length}:{hex (bs.take 8)}:{sum}"

def summary (bs : Bytes) : String := summaryUpTo 32 bs

end Bench
end ReliableUdp
