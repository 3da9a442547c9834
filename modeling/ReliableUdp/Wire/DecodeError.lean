/-!
# Why bytes fail to decode

Every way a received byte string can fail to read as a message, with the family each cause
belongs to (`DecodeError.family`) and its text (`DecodeError.message`).
-/

namespace ReliableUdp

/-- Causes of a failed read. -/
inductive DecodeError where
  | varintUnderflow
  | varintOverflow
  | short (requested available : Nat)
  | utf8 (validUpTo : Nat) (badLength : Option Nat)
  | lengthExceeds (declared remaining : Nat)
  | unknownKind (raw : Nat)
  | unknownControl (raw : Nat)
  | fragmentIndex (index total : Nat)
  | payloadExceeds (declared remaining : Nat)
  | ackLength (len : Nat)
  deriving DecidableEq, Repr

namespace DecodeError

def family : DecodeError → String
  | varintUnderflow | varintOverflow => "VarIntError"
  | short .. => "TryGetError"
  | utf8 .. => "Utf8Error"
  | unknownControl .. => "TryFromPrimitiveError"
  | _ => "Error"

def message : DecodeError → String
  | varintUnderflow => "BufferUnderflow"
  | varintOverflow => "NumericOverflow"
  | short r a => s!"Not enough bytes remaining in buffer to read value (requested {r} but only {a} available)"
  | utf8 i none => s!"incomplete utf-8 byte sequence from index {i}"
  | utf8 i (some n) => s!"invalid utf-8 sequence of {n} bytes from index {i}"
  | lengthExceeds d r => s!"declared length {d} exceeds remaining {r} bytes"
  | unknownKind raw => s!"invalid message type {raw}"
  | unknownControl raw =>
    "No discriminant in enum \x60LibraryMessageType\x60 matches the value \x60" ++ toString raw ++ "\x60"
  | fragmentIndex i t => s!"fragment index {i} is out of range for a fragment group of {t}"
  | payloadExceeds d r => s!"declared payload length {d} exceeds the remaining {r} bytes of the datagram"
  | ackLength n => s!"acknowledge payload length {n} is not a multiple of 3"

end DecodeError
end ReliableUdp
