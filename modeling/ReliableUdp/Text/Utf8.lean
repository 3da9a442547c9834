import ReliableUdp.Wire.Bytes

/-!
# UTF-8 text on the wire

Text travels as its UTF-8 bytes. A byte string that is not UTF-8 is refused at the first byte
where no well-formed character starts, with the length of the valid prefix.
-/

namespace ReliableUdp
namespace Utf8

def isCont (b : UInt8) : Bool := 0x80 ≤ b.toNat && b.toNat ≤ 0xBF

def secondOfThree (lead c : Nat) : Bool :=
  (lead == 0xE0 && 0xA0 ≤ c && c ≤ 0xBF) ||
  (0xE1 ≤ lead && lead ≤ 0xEC && 0x80 ≤ c && c ≤ 0xBF) ||
  (lead == 0xED && 0x80 ≤ c && c ≤ 0x9F) ||
  (0xEE ≤ lead && lead ≤ 0xEF && 0x80 ≤ c && c ≤ 0xBF)

def secondOfFour (lead c : Nat) : Bool :=
  (lead == 0xF0 && 0x90 ≤ c && c ≤ 0xBF) ||
  (0xF1 ≤ lead && lead ≤ 0xF3 && 0x80 ≤ c && c ≤ 0xBF) ||
  (lead == 0xF4 && 0x80 ≤ c && c ≤ 0x8F)

def firstError (i : Nat) : Bytes → Option (Nat × Option Nat)
  | [] => none
  | b :: rest =>
    let lead := b.toNat
    if lead < 0x80 then firstError (i + 1) rest
    else if 0xC2 ≤ lead ∧ lead ≤ 0xDF then
      match rest with
      | [] => some (i, none)
      | c :: rest => if isCont c then firstError (i + 2) rest else some (i, some 1)
    else if 0xE0 ≤ lead ∧ lead ≤ 0xEF then
      match rest with
      | [] => some (i, none)
      | c :: rest =>
        if secondOfThree lead c.toNat then
          match rest with
          | [] => some (i, none)
          | d :: rest => if isCont d then firstError (i + 3) rest else some (i, some 2)
        else some (i, some 1)
    else if 0xF0 ≤ lead ∧ lead ≤ 0xF4 then
      match rest with
      | [] => some (i, none)
      | c :: rest =>
        if secondOfFour lead c.toNat then
          match rest with
          | [] => some (i, none)
          | d :: rest =>
            if isCont d then
              match rest with
              | [] => some (i, none)
              | e :: rest => if isCont e then firstError (i + 4) rest else some (i, some 3)
            else some (i, some 2)
        else some (i, some 1)
    else some (i, some 1)

def encode (s : String) : Bytes := s.toUTF8.data.toList

def isCharBoundary (bs : Bytes) (i : Nat) : Bool :=
  i == 0 || match bs[i]? with
    | some b => !isCont b
    | none => i == bs.length

def takeBytes : List Char → Nat → List Char
  | [], _ => []
  | c :: cs, n => if c.utf8Size ≤ n then c :: takeBytes cs (n - c.utf8Size) else []

def decode (bs : Bytes) : Except DecodeError String :=
  match String.fromUTF8? ⟨bs.toArray⟩ with
  | some s => .ok s
  | none =>
    match firstError 0 bs with
    | some (i, n) => .error (.utf8 i n)
    | none => .error (.utf8 0 none)

end Utf8

namespace Wire

def putTextWith (v : Varint) (s : String) : Bytes := putBytesWith v (Utf8.encode s)

def putText (s : String) : Bytes := putTextWith .leb128 s

def readTextWith (v : Varint) : Reader String := do
  let bs ← readBytesWith v
  match Utf8.decode bs with
  | .ok s => pure s
  | .error e => throw e

def readText : Reader String := readTextWith .leb128

/-- Where a text of bytes `bs` is cut to take at most `max` bytes behind its length prefix:
from byte position `n`, one byte down at a time while the prefixed length is over `max` or the
position falls inside a character, and no further than 0. -/
def cutEnd (bs : Bytes) (max : Nat) : Nat → Nat
  | 0 => 0
  | n + 1 =>
    if prefixedLen (n + 1) ≤ max ∧ Utf8.isCharBoundary bs (n + 1) = true then n + 1
    else cutEnd bs max n

def truncateText (s : String) (max : Nat) : String :=
  let bs := Utf8.encode s
  String.ofList (Utf8.takeBytes s.toList (cutEnd bs max bs.length))

end Wire
end ReliableUdp
