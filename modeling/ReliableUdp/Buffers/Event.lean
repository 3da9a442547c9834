import ReliableUdp.Settings
import ReliableUdp.Net.Endpoint

/-!
# Released events

What the library hands to the application, oldest first. Notifications and status changes are
kept only when their kind is enabled; data and approval requests always are.
-/

namespace ReliableUdp

inductive Status where
  | none
  | connecting
  | connected
  | disconnecting
  | disconnected
  deriving DecidableEq, Repr, Inhabited

def Status.name : Status → String
  | .none => "None"
  | .connecting => "Connecting"
  | .connected => "Connected"
  | .disconnecting => "Disconnecting"
  | .disconnected => "Disconnected"

def Status.all : List Status := [.none, .connecting, .connected, .disconnecting, .disconnected]

def Status.ofName? (s : String) : Option Status := Status.all.find? (·.name == s)

def Status.isClosing : Status → Bool
  | .disconnecting | .disconnected => true
  | _ => false

inductive EventKind where
  | status (s : Status) (reason : String)
  | debug (text : String)
  | warning (text : String)
  | error (text : String)
  | data (method : Delivery) (channel : Nat)
  | unconnected
  | approval
  | discovery
  deriving DecidableEq, Repr

structure Event where
  kind : EventKind
  handle : Option Nat := none
  sender : Option Endpoint := none
  data : Bytes := []
  deriving Repr

/-- The queue of released events and the notification kinds it keeps. -/
structure Released where
  enabled : Nat
  events : List Event := []
  deriving Repr

namespace Released

def push (q : Released) (e : Event) : Released := { q with events := q.events ++ [e] }

def pushIf (q : Released) (bit : Nat) (e : Event) : Released :=
  if Notify.has q.enabled bit then q.push e else q

def debug (q : Released) (text : String) : Released := q.pushIf Notify.debug { kind := .debug text }

def warning (q : Released) (text : String) : Released :=
  q.pushIf Notify.warning { kind := .warning text }

def error (q : Released) (text : String) : Released := q.pushIf Notify.error { kind := .error text }

def statusChanged (q : Released) (handle : Nat) (remote : Endpoint) (s : Status) (reason : String) :
    Released :=
  q.pushIf Notify.status { kind := .status s reason, handle := some handle, sender := some remote }

def data (q : Released) (handle : Nat) (remote : Endpoint) (m : Delivery) (c : Nat) (d : Bytes) :
    Released :=
  q.push { kind := .data m c, handle := some handle, sender := some remote, data := d }

def approval (q : Released) (handle : Nat) (remote : Endpoint) (hail : Bytes) : Released :=
  q.push { kind := .approval, handle := some handle, sender := some remote, data := hail }

def unconnected (q : Released) (sender : Endpoint) (d : Bytes) : Released :=
  q.pushIf Notify.unconnected { kind := .unconnected, sender := some sender, data := d }

def discovery (q : Released) (sender : Endpoint) (d : Bytes) : Released :=
  q.pushIf Notify.discovery { kind := .discovery, sender := some sender, data := d }

def drain (q : Released) : List Event × Released := (q.events, { q with events := [] })

end Released
end ReliableUdp
