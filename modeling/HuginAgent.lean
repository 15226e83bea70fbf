import HuginAgent.Js.Number
import HuginAgent.Js.Value
import HuginAgent.Js.Json
import HuginAgent.Js.RoundTrip
import HuginAgent.Protocol.Digest
import HuginAgent.Conn.Outbound
import HuginAgent.Kit.Machine
import HuginAgent.Kit.Table
import HuginAgent.Store.EventLog
import HuginAgent.Jobs.Manager
import HuginAgent.Jobs.Run
import HuginAgent.Ledger.Basic
import HuginAgent.Ledger.Sound
import HuginAgent.Jobs.Payload
import HuginAgent.Ledger.View
import HuginAgent.Jobs.Fenced
import HuginAgent.Ledger.Refine
import HuginAgent.Ledger.Owned
import HuginAgent.Jobs.Ownership
import HuginAgent.Jobs.Fencing
import HuginAgent.Jobs.Calls
import HuginAgent.Jobs.Idempotency
import HuginAgent.Jobs.Durability
import HuginAgent.Jobs.Results
import HuginAgent.Jobs.Leases
import HuginAgent.Jobs.Backpressure
import HuginAgent.Ledger.Stream
import HuginAgent.Jobs.Sends
import HuginAgent.Jobs.Streams
import HuginAgent.Jobs.Resume
import HuginAgent.Store.Consistent
import HuginAgent.Jobs.Writes
import HuginAgent.Jobs.Crash
import HuginAgent.Jobs.Bounds
import HuginAgent.Jobs.Summary
import HuginAgent.Jobs.Completion
import HuginAgent.Jobs.Restart
import HuginAgent.Daemon.Session
import HuginAgent.Daemon.Shutdown
import HuginAgent.Daemon.Reconnect
import HuginAgent.Conn.Frames
import HuginAgent.Jobs.Frames
import HuginAgent.Sessions.Frames
import HuginAgent.Daemon.Backlog
import HuginAgent.Engine.Permission
import HuginAgent.Jobs.Approvals
import HuginAgent.Jobs.Decisions
import HuginAgent.Engine.Gate
import HuginAgent.Engine.FailClosed
import HuginAgent.Protocol.Canonical
import HuginAgent.Kit.Window
import HuginAgent.Sessions.Flow
import HuginAgent.Sessions.Protocol
import HuginAgent.Sessions.Writers
import HuginAgent.Js.Buffer
import HuginAgent.Js.Cursor
import HuginAgent.History.Entry
import HuginAgent.History.Page
import HuginAgent.History.Paging
import HuginAgent.History.Build
import HuginAgent.History.Bound
import HuginAgent.Js.Nodes
import HuginAgent.History.Plain
import HuginAgent.History.Frame
import HuginAgent.History.Append
import HuginAgent.History.Stable
import HuginAgent.History.Turns
import HuginAgent.History.Valid
import HuginAgent.Js.Order
import HuginAgent.Js.Strings
import HuginAgent.Kit.Keyset
import HuginAgent.Kit.Reader
import HuginAgent.Listing.Files
import HuginAgent.Listing.Sessions
import HuginAgent.Listing.List
import HuginAgent.Engine.Argv
import HuginAgent.Js.Host
import HuginAgent.Listing.Paging
import HuginAgent.Js.Url
import HuginAgent.Kit.Framing
import HuginAgent.Kit.Grammar
import HuginAgent.Protocol.Origin
import HuginAgent.Protocol.Transcript
import HuginAgent.Py.Strings
import HuginAgent.Py.Urlsplit
import HuginAgent.Py.Verifier
import HuginAgent.Py.Origin
import HuginAgent.Protocol.Agreement
import HuginAgent.Js.Normal
import HuginAgent.Listing.Forks
import HuginAgent.Listing.Binding
import HuginAgent.Auth.Token
import HuginAgent.Auth.Connect
import HuginAgent.Auth.DevOrigin
import HuginAgent.Auth.Spelling
import HuginAgent.Auth.Confirmed
import HuginAgent.Kit.Mailbox
import HuginAgent.Protocol.Inbound
import HuginAgent.Conn.Client
import HuginAgent.Daemon.Pump
import HuginAgent.Daemon.Delivery
import HuginAgent.Daemon.Gating
import HuginAgent.Listing.Scope
import HuginAgent.Listing.Wire
import HuginAgent.Engine.Normalize
import HuginAgent.Engine.Claude
import HuginAgent.Engine.Ended
import HuginAgent.Engine.Output
import HuginAgent.Engine.Pauses
import HuginAgent.Engine.Signals
import HuginAgent.Sessions.Runner
import HuginAgent.Sessions.Signals
import HuginAgent.Sessions.Starts
import HuginAgent.Sessions.Told
import HuginAgent.Sessions.Delivered
import HuginAgent.Sessions.Cuts
import HuginAgent.Js.Chars
import HuginAgent.Protocol.Rfc8785
import HuginAgent.Protocol.Negotiation
import HuginAgent.Js.Resolve
import HuginAgent.Workspace.Admission
import HuginAgent.Kit.Links
import HuginAgent.Workspace.Attempts
import HuginAgent.Workspace.Checkout
import HuginAgent.Cli.Ownership
import HuginAgent.Kit.Queues
import HuginAgent.History.Fifo
import HuginAgent.Js.Halves
import HuginAgent.History.Cut
import HuginAgent.Sessions.Tail
import HuginAgent.Conn.Shortened
import HuginAgent.Jobs.Variants
import HuginAgent.Engine.Kinds
import HuginAgent.Kit.Radix
import HuginAgent.Js.Base64
import HuginAgent.Py.Base64
import HuginAgent.Protocol.Aliases
import HuginAgent.Jobs.Outbound
import HuginAgent.Cli.Runs
import HuginAgent.Pairing.Server
import HuginAgent.Pairing.Exclusive
import HuginAgent.Pairing.Completes
import HuginAgent.Js.Pretty
import HuginAgent.Relay.Paired
