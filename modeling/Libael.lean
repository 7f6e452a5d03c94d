import Libael.Lts.Pipe
import Libael.Lts.Run
import Libael.Lts.Erase
import Libael.Lts.Link
import Libael.Lts.Potential
import Libael.Lts.Spec
import Libael.Lts.Lease
import Libael.Base
import Libael.DataView
import Libael.EPoll.Events
import Libael.EPoll.EPoll
import Libael.EventLoop.Loop
import Libael.EventLoop.Moves
import Libael.EventLoop.Frames
import Libael.EventLoop.Changes
import Libael.EventLoop.Tokens
import Libael.EventLoop.Lifecycle
import Libael.EventLoop.Objects
import Libael.EventLoop.Drain
import Libael.EventLoop.Registration
import Libael.EventLoop.Removal
import Libael.EventLoop.Dispatch
import Libael.EventLoop.Internal
import Libael.EventLoop.Execute
import Libael.EventLoop.Readiness
import Libael.EventLoop.References
import Libael.EventLoop.Ownership
import Libael.EventLoop.Registry
import Libael.EventLoop.Wakeup
import Libael.EventLoop.Stop
import Libael.EventLoop.Signals
import Libael.EventLoop.Hosted
import Libael.EventLoop.Attended
import Libael.EventLoop.Armed
import Libael.EventLoop.Tables
import Libael.EventLoop.Timers
import Libael.EventLoop.Cancel
import Libael.EventLoop.Work
import Libael.EventLoop.Rest
import Libael.StreamBuffer.Filter
import Libael.StreamBuffer.Buffer
import Libael.StreamBuffer.Machine
import Libael.StreamBuffer.Frames
import Libael.StreamBuffer.Moves
import Libael.StreamBuffer.Callbacks
import Libael.StreamBuffer.Chain
import Libael.StreamBuffer.Hosted
import Libael.StreamBuffer.Refines
import Libael.StreamBuffer.Strings
import Libael.Tcp.Filter
import Libael.Handle
import Libael.StreamBuffer.Handoff
import Libael.StreamBuffer.Teardown
import Libael.StreamBuffer.Work
import Libael.Tcp.Connect
import Libael.Tcp.Receiving
import Libael.Tcp.Stream
import Libael.Tcp.Integrity
import Libael.Tcp.Calls
import Libael.Tcp.Closing
import Libael.Tcp.Flush
import Libael.Tcp.Endpoint
import Libael.Tcp.Connection
import Libael.Tcp.Logging
import Libael.Tcp.Stranded
import Libael.Tcp.Views
import Libael.Tcp.Work
import Libael.StreamListener.StreamListener
import Libael.StreamListener.Backlog
import Libael.Timer
import Libael.Descriptors
import Libael.LoopTable
import Libael.Interest
import Libael.Interrupts
