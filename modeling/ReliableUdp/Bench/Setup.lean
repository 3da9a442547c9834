import ReliableUdp.Bench.Input
import ReliableUdp.Buffers.Event
import ReliableUdp.Settings

/-!
# Bench: settings and event reports

Settings in a request start from a server's defaults for application `app` with every
notification enabled, and change the fields the request names. Released events are reported as
arrays whose first element names the kind.
-/

namespace ReliableUdp
namespace Bench

def spanMs (d : Doc) (key : String) (dflt : Nat) : Run Nat := do
  match d.get? key with
  | some v => pure (Span.ofMillis (← v.asNat key))
  | none => pure dflt

def settingNat (key : String) : Doc → Run Nat
  | .nat n => pure n
  | _ => bad s!"{key} must be an integer"

def settingBool (key : String) : Doc → Run Bool
  | .bool b => pure b
  | _ => bad s!"{key} must be a boolean"

def settingFloat (key : String) (v : Doc) : Run Float :=
  match v with
  | .str _ | .nat _ | .neg _ | .float _ => v.asFloat key
  | _ => bad s!"{key} must be a number"

def settingList (key : String) : Doc → Run (List Doc)
  | .arr xs => pure xs
  | _ => bad s!"{key} must be an array"

def settingSpan (key : String) (v : Doc) : Run Nat := do pure (Span.ofMillis (← settingNat key v))

def settingWord (key : String) (bits : Nat) (v : Doc) : Run Nat := do
  pure ((← settingNat key v) % Nat.pow 2 bits)

def notificationsOf (d : Doc) : Run Nat :=
  match d with
  | .str "all" => pure Notify.all
  | .str "default" => pure Notify.standard
  | _ => settingWord "enabled_notifications" 8 d

def setting (s : Settings) (key : String) (v : Doc) : Run Settings :=
  let r := s.resend
  let sim := s.simulation
  match key with
  | "server" => pure s
  | "app_identifier" => do pure { s with appId := ← v.asText key }
  | "accept_incoming_connections" => do pure { s with acceptIncoming := ← settingBool key v }
  | "max_connections" => do pure { s with maxConnections := ← settingNat key v }
  | "connection_approval" => do pure { s with connectionApproval := ← settingBool key v }
  | "mtu" => do pure { s with mtu := ← settingNat key v }
  | "max_pool_size" => do pure { s with maxPoolSize := ← settingNat key v }
  | "max_message_size" => do pure { s with maxMessageSize := ← settingNat key v }
  | "ping_frequency_ms" => do pure { s with pingFrequency := ← settingSpan key v }
  | "keep_alive_delay_ms" => do pure { s with keepAliveDelay := ← settingSpan key v }
  | "connection_timeout_ms" => do pure { s with connectionTimeout := ← settingSpan key v }
  | "handshake_retry_interval_ms" => do pure { s with handshakeRetry := ← settingSpan key v }
  | "max_handshake_attempts" => do pure { s with maxHandshakeAttempts := ← settingWord key 32 v }
  | "linger_ms" => do pure { s with linger := ← settingSpan key v }
  | "rtt_new_sample_weight" => do pure { s with rttWeight := ← settingFloat key v }
  | "resend_base_delays_ms" => do
    let xs ← (← settingList key v).mapM (settingSpan key)
    pure { s with resend := { r with baseDelays := xs } }
  | "resend_rtt_multipliers" => do
    let xs ← (← settingList key v).mapM (settingFloat key)
    pure { s with resend := { r with rttMultipliers := xs } }
  | "resend_max_sends" => do pure { s with resend := { r with maxSends := ← settingWord key 32 v } }
  | "window_size" => do
    let n ← settingNat key v
    if n < Nat.pow 2 16 then pure { s with windowSize := n } else bad "window_size out of range"
  | "ack_flush_threshold" => do pure { s with ackThreshold := ← settingNat key v }
  | "max_ack_delay_ms" => do pure { s with maxAckDelay := ← settingSpan key v }
  | "throttle_bytes_per_second" => do pure { s with throttleRate := ← settingWord key 32 v }
  | "throttle_peak_bytes" => do pure { s with throttlePeak := ← settingWord key 32 v }
  | "fragment_group_timeout_ms" => do pure { s with fragmentTimeout := ← settingSpan key v }
  | "answer_discovery" => do pure { s with answerDiscovery := ← settingBool key v }
  | "discovery_response_data" => do pure { s with discoveryData := ← v.asBytes key }
  | "enabled_notifications" => do pure { s with notifications := ← notificationsOf v }
  | "panic_on_send_error" => do pure { s with panicOnSendError := ← settingBool key v }
  | "simulation_loss" => do pure { s with simulation := { sim with loss := ← settingFloat key v } }
  | "simulation_duplicates" => do
    pure { s with simulation := { sim with duplicates := ← settingFloat key v } }
  | "simulation_min_latency_ms" => do
    pure { s with simulation := { sim with minLatency := ← settingSpan key v } }
  | "simulation_random_latency_ms" => do
    pure { s with simulation := { sim with randomLatency := ← settingSpan key v } }
  | other => bad s!"unknown config field {other}"

/-- Settings from a request's settings object, starting from a server named `app` with every
notification enabled, or from a client when `server` is false; the fields apply in key order.
`null` stands for an empty object. -/
def settingsOf (d : Doc) (app : String) : Run Settings := do
  let server ← d.boolOr "server" true
  let base : Settings := { appId := app, acceptIncoming := server, notifications := Notify.all }
  match d with
  | .obj fields => fields.foldlM (fun s (k, v) => setting s k v) base
  | .null => pure base
  | _ => bad "config must be an object"

def settingsAt (d : Doc) (key app : String) : Run Settings :=
  match d.get? key with
  | some v => settingsOf v app
  | none => settingsOf (.obj []) app

def faultDoc (f : Fault) : Doc := .obj [("error", .str f.family), ("message", .str f.message)]

def endpointDoc (e : Option Endpoint) : Doc := Doc.opt (fun e => .str e.toText) e

def eventDoc (e : Event) : Doc :=
  let sender := endpointDoc e.sender
  match e.kind with
  | .status s reason => .arr [.str "status", sender, .str s.name, .str reason]
  | .debug t => .arr [.str "debug", sender, .str t]
  | .warning t => .arr [.str "warning", sender, .str t]
  | .error t => .arr [.str "error", sender, .str t]
  | .data m c => .arr [.str "data", sender, .str m.name, .nat c, .str (summary e.data)]
  | .unconnected => .arr [.str "unconnected", sender, .str (summary e.data)]
  | .approval => .arr [.str "approval", sender, .str (summary e.data)]
  | .discovery => .arr [.str "discovery", sender, .str (summary e.data)]

def kindAt (d : Doc) : Run Kind := do
  match d.get? "type_raw" with
  | some r =>
    let raw ← fits (← r.asNat "type_raw") 8 "type_raw"
    match Kind.ofRaw? raw with
    | some k => pure k
    | none => bad s!"invalid message type {raw}"
  | none =>
    let m ← d.delivery "method"
    let c ← d.natOr "channel" 0
    pure (Kind.user m (c % 256))

def timeAt (d : Doc) : Run Nat := do pure (Span.ofMillis (← d.natOr "t" 0))

end Bench
end ReliableUdp
