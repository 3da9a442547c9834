import ReliableUdp.Crash
import ReliableUdp.Wire.Seq
import ReliableUdp.Wire.DecodeError
import ReliableUdp.Wire.Bytes
import ReliableUdp.Text.Utf8
import ReliableUdp.Wire.Kind
import ReliableUdp.Wire.Header
import ReliableUdp.Wire.Datagram
import ReliableUdp.Wire.Payload
import ReliableUdp.Net.Endpoint
import ReliableUdp.Text.Shortest
import ReliableUdp.Bench.Doc
import ReliableUdp.Bench.Json
import ReliableUdp.Bench.Input
import ReliableUdp.Bench.WireOps
import ReliableUdp.Bench.Answer
import ReliableUdp.Fault
import ReliableUdp.Time.Span
import ReliableUdp.Settings
import ReliableUdp.Buffers.Pool
import ReliableUdp.Buffers.Event
import ReliableUdp.Buffers.Queued
import ReliableUdp.Engine.Fragments
import ReliableUdp.Engine.SendWindow
import ReliableUdp.Engine.ReceiveWindow
import ReliableUdp.Engine.Latency
import ReliableUdp.Connection.Handle
import ReliableUdp.Net.Simulation
import ReliableUdp.Bench.Setup
import ReliableUdp.Bench.Parts
import ReliableUdp.Bench.Windows
import ReliableUdp.Bench.Messages
import ReliableUdp.Connection.Shared
import ReliableUdp.Connection.Core
import ReliableUdp.Connection.Receive
import ReliableUdp.Connection.Heartbeat
import ReliableUdp.Bench.Pair
import ReliableUdp.Net.Socket
import ReliableUdp.Net.Loop
import ReliableUdp.Net.Peer
import ReliableUdp.Bench.Loop
import ReliableUdp.Bench.PeerOps
import ReliableUdp.Bench.Live
import ReliableUdp.Proofs.SeqWindow
import ReliableUdp.Proofs.ReceiveCounters
import ReliableUdp.Proofs.ReceiveRefinement
import ReliableUdp.Proofs.Delivery
import ReliableUdp.Proofs.SendNumbering
import ReliableUdp.Proofs.ConnectionWindow
import ReliableUdp.Proofs.ReadBack
import ReliableUdp.Proofs.Outbound
import ReliableUdp.Proofs.Lifecycle.Moves
import ReliableUdp.Proofs.Lifecycle.Steps
import ReliableUdp.Proofs.Lifecycle.Laws
import ReliableUdp.Proofs.Lifecycle.Runs
import ReliableUdp.Proofs.StatusOrder
import ReliableUdp.Proofs.LastMessage
import ReliableUdp.Proofs.Approval
import ReliableUdp.Proofs.Handshake
import ReliableUdp.Proofs.Packing
import ReliableUdp.Proofs.Reassembly
import ReliableUdp.Proofs.Safety.Bounds
import ReliableUdp.Proofs.Safety.Steps
import ReliableUdp.Proofs.Safety.Runs
import ReliableUdp.Proofs.HeaderCodec
import ReliableUdp.Proofs.ControlCodecs
import ReliableUdp.Proofs.ResendPass
import ReliableUdp.Proofs.ResendLife
import ReliableUdp.Proofs.Ledger.Books
import ReliableUdp.Proofs.Ledger.Steps
import ReliableUdp.Proofs.Ledger.Connection
import ReliableUdp.Proofs.Ledger.Network
import ReliableUdp.Proofs.Ledger.Peer
import ReliableUdp.Proofs.Draining
import ReliableUdp.Proofs.Finishing
import ReliableUdp.Proofs.Traffic.Acts
import ReliableUdp.Proofs.Traffic.Steps
import ReliableUdp.Proofs.Traffic.Runs
import ReliableUdp.Proofs.Traffic.Acks
import ReliableUdp.Proofs.Traffic.Order
import ReliableUdp.Proofs.Truncation
import ReliableUdp.Proofs.Timing.Birth
import ReliableUdp.Proofs.Timing.Handshake
import ReliableUdp.Proofs.Timing.Validation
import ReliableUdp.Proofs.Handover.Phases
import ReliableUdp.Proofs.Handover.Rounds
import ReliableUdp.Proofs.Recycling
import ReliableUdp.Proofs.DueOrder
import ReliableUdp.Proofs.Link.Model
import ReliableUdp.Proofs.Link.Sender
import ReliableUdp.Proofs.Link.Invariant
import ReliableUdp.Proofs.Link.Release
import ReliableUdp.Proofs.Link.PastHalf
