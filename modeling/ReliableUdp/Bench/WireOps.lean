import ReliableUdp.Bench.Input
import ReliableUdp.Wire.Datagram
import ReliableUdp.Wire.Payload

/-!
# Bench: the wire format

Requests on sequence numbers, length prefixes, message kinds, headers, datagrams and control
payloads, each answered by one report.
-/

namespace ReliableUdp
namespace Bench

open Doc in
def decodeFailure (e : DecodeError) : Doc :=
  obj [("error", str e.family), ("message", str e.message)]

def kindDoc (k : Kind) : Doc :=
  .obj [("type", .str k.name), ("raw", .nat k.toRaw), ("has_seq", .bool k.hasSeq),
    ("reliable", .bool k.isReliable), ("method", Doc.opt (fun m => .str m.name) k.method?)]

def headerDoc (h : Header) : Doc :=
  .obj [("type", .str h.kind.name), ("raw", .nat h.kind.toRaw),
    ("lib", Doc.opt (fun c => .str c.name) h.control),
    ("seq", Doc.opt (fun s => .nat s.val) h.seq), ("len", .nat h.payloadLen),
    ("frag", Doc.opt (fun f => .arr [.nat f.group, .nat f.total, .nat f.index]) h.fragment)]

def seqReport (d : Doc) : Run Doc := do
  let a := Seq.ofNat (← d.u16At "a")
  let b := Seq.ofNat (← d.u16Or "b" 0)
  let n ← d.u16Or "n" 0
  pure (.obj [("a", .nat a.val), ("b", .nat b.val), ("distance", .int (a.distance b)),
    ("next", .nat a.next.val), ("plus", .nat (a.plus n).val), ("display", .str (toString a.val))])

def prefixedLenReport (d : Doc) : Run Doc := do
  let len ← d.natAt "len"
  let total ← lift (addWord (Wire.varintLen len) len)
  pure (.obj [("len", .nat total)])

def readReport (d : Doc) (asText : Bool) : Run Doc := do
  let bs ← d.bytes "data"
  let r := if asText then (fun (s, rest) => (Doc.str s, rest)) <$> Wire.readText bs
    else (fun (v, rest) => (Doc.str (hex v), rest)) <$> Wire.readBytes bs
  pure <| match r with
    | .ok (v, rest) => .obj [("value", v), ("rest", .str (hex rest))]
    | .error e => decodeFailure e

def kindOfRaw (raw : Nat) : Run Kind :=
  match Kind.ofRaw? raw with
  | some k => pure k
  | none => bad s!"invalid message type {raw}"

def msgtypeReport (d : Doc) : Run Doc := do
  let raw ← d.u8At "raw"
  pure <| match Kind.ofRaw? raw with
    | some k => kindDoc k
    | none => decodeFailure (.unknownKind raw)

def channelFailure (m : Delivery) (c : Nat) : Doc :=
  .obj [("error", .str "Error"), ("message", .str s!"channel {c} is out of range for {m.name}")]

def msgtypeUserReport (d : Doc) : Run Doc := do
  let m ← d.delivery "method"
  let c ← d.u8At "channel"
  pure (.obj [("method_reliable", .bool m.isReliable), ("num_channels", .nat m.channels),
    ("type", match Kind.user? m c with
      | some k => kindDoc k
      | none => channelFailure m c)])

def controlOf (d : Doc) : Run Control :=
  match d with
  | .str s => match Control.ofName? s with
    | some c => pure c
    | none => bad s!"unknown library type {s}"
  | _ => do
    let n ← d.asNat "lib"
    match Control.ofNat? n with
    | some c => pure c
    | none => bad s!"bad library type {n}"

def headerOf (d : Doc) (payloadLen : Nat) : Run Header := do
  let kind ← kindOfRaw (← d.u8At "type_raw")
  let control ← match d.get? "lib" with
    | some c => some <$> controlOf c
    | none => pure none
  let seq ← match ← d.natOpt "seq" with
    | some n => do pure (some (Seq.ofNat (← fits n 16 "seq")))
    | none => pure none
  let fragment ← match d.get? "frag" with
    | some f => do
      match ← f.asList "frag" with
      | g :: t :: i :: _ => do
        let group ← fits (← g.asNat "frag") 16 "frag"
        let total ← fits (← t.asNat "frag") 16 "frag"
        let index ← fits (← i.asNat "frag") 16 "frag"
        pure (some ({ group, total, index } : FragmentTag))
      | _ => bad "frag needs three numbers"
    | none => pure none
  pure { kind, control, seq, payloadLen, fragment }

def headerSerReport (d : Doc) : Run Doc := do
  let h ← headerOf (← d.field "header") (← d.u16At "payload_len")
  pure (.obj [("bytes", .str (hex h.encode)), ("serialized_len", .nat h.encodedLen)])

def headerDeserReport (d : Doc) : Run Doc := do
  let bs ← d.bytes "data"
  pure <| match Header.decode bs with
    | .ok (h, rest) => .obj [("header", headerDoc h), ("consumed", .nat (bs.length - rest.length))]
    | .error e => decodeFailure e

def packetReadReport (d : Doc) : Run Doc := do
  let bs ← d.bytes "data"
  pure (.obj [("items", .arr ((Datagram.read bs).map fun
    | .ok (h, p) => .obj [("header", headerDoc h), ("payload", .str (hex p))]
    | .error e => decodeFailure e))])

/-- One step of a datagram-writing request, with the reports it adds. -/
structure WriteLog where
  writer : Datagram.Writer
  takes : List Doc := []
  maxPayloads : List Doc := []
  hasData : List Doc := []

def packetWriteStep (log : WriteLog) (m : Doc) : Run WriteLog := do
  if m.has "take" then
    let (ds, w) := log.writer.take
    pure { log with writer := w, takes := log.takes ++ [.arr (ds.map (.str ∘ hex))] }
  else if m.has "has_data" then
    pure { log with hasData := log.hasData ++ [.bool log.writer.hasData] }
  else if let some h := m.lookup? "max_payload_len" then
    let h ← h.asNat "max_payload_len"
    pure { log with maxPayloads := log.maxPayloads ++ [.nat (log.writer.maxPayload h)] }
  else
    let payload ← m.bytes "payload"
    if payload.length ≥ 65536 then bad "payload too long"
    let h ← headerOf m payload.length
    let w ← lift (log.writer.write h payload)
    pure { log with writer := w }

def packetWriteReport (d : Doc) : Run Doc := do
  let mtu ← d.natAt "mtu"
  let msgs ← d.listField "messages"
  let log ← msgs.foldlM packetWriteStep { writer := Datagram.Writer.empty mtu }
  let (ds, _) := log.writer.take
  let takes := log.takes ++ [.arr (ds.map (.str ∘ hex))]
  let base := [("takes", Doc.arr takes), ("max_payload_len", .arr log.maxPayloads), ("mtu", .nat mtu)]
  let withHas := if msgs.any (·.has "has_data") then
      base ++ [("has_data", .arr log.hasData)] else base
  pure (.obj withHas)

def ackEntryOf (d : Doc) : Run (Seq × Nat) := do
  match ← d.asList "entries" with
  | s :: k :: _ => pure (Seq.ofNat (← fits (← s.asNat "entries") 16 "entries"),
      ← fits (← k.asNat "entries") 8 "entries")
  | _ => bad "an entry is [seq, type]"

def libSerReport (d : Doc) : Run Doc := do
  let kind ← d.strField "kind"
  let (bs, len) ← match kind with
    | "connect" => do
      let app ← d.text "app_identifier"
      let hail ← d.bytesOr "hail"
      pure (Payload.connect app hail, some (Payload.connectLen app hail))
    | "connect_response" => do
      let hail ← d.bytesOr "hail"
      pure (Wire.putBytes hail, some (Wire.prefixedLen hail.length))
    | "disconnect" => do
      let reason ← d.text "reason"
      pure (Wire.putText reason, some (Wire.prefixedLen (Utf8.encode reason).length))
    | "ping" => do
      let id ← d.u8At "ping_id"
      pure (Payload.ping id, some 1)
    | "ack" => do
      let es ← (← d.listField "entries").mapM ackEntryOf
      pure (Payload.ack es, some (es.length * Payload.ackEntryLen))
    | "discovery" => do
      let app ← d.text "app_identifier"
      pure (Wire.putText app, none)
    | other => bad s!"unknown kind {other}"
  pure (.obj [("bytes", .str (summary bs)), ("bytes_len", .nat bs.length),
    ("serialized_len", Doc.opt .nat len)])

def libDeserReport (d : Doc) : Run Doc := do
  let kind ← d.strField "kind"
  let bs ← d.bytes "data"
  let r : Except DecodeError (List (String × Doc) × Bytes) ← match kind with
    | "connect" => pure ((fun ((app, hail), rest) =>
        ([("app_identifier", Doc.str app), ("hail", .str (hex hail))], rest)) <$> Payload.readConnect bs)
    | "connect_response" => pure ((fun (hail, rest) => ([("hail", Doc.str (hex hail))], rest)) <$>
        Wire.readBytes bs)
    | "disconnect" => pure ((fun (r, rest) => ([("reason", Doc.str r)], rest)) <$> Wire.readText bs)
    | "ping" => pure ((fun (i, rest) => ([("ping_id", Doc.nat i)], rest)) <$> Payload.readPing bs)
    | "ack" => pure ((fun (es, rest) =>
        ([("entries", Doc.arr (es.map fun (s, k) => .arr [.nat s.val, .nat k]))], rest)) <$>
        Payload.readAck bs)
    | "discovery" => pure ((fun (app, rest) => ([("app_identifier", Doc.str app)], rest)) <$>
        Wire.readText bs)
    | other => bad s!"unknown kind {other}"
  pure <| match r with
    | .ok (fields, rest) => .obj (fields ++ [("rest", .str (hex rest))])
    | .error e => decodeFailure e

def truncatedReport (d : Doc) : Run Doc := do
  let reason ← d.text "reason"
  let max ← d.natAt "max_len"
  let r := Payload.disconnectReason reason max
  let len := Wire.prefixedLen (Utf8.encode r).length
  pure (.obj [("reason", .str r), ("serialized_len", .nat len), ("bytes_len", .nat len)])

end Bench
end ReliableUdp
