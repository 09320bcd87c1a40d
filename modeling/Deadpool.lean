import Deadpool.Lts
import Deadpool.Pool.Queue
import Deadpool.Pool.Shutdown
import Deadpool.Pool.RunTask
import Deadpool.Pool.WorkerPipe
import Deadpool.Py.Number
import Deadpool.Py.Float
import Deadpool.Py.Json
import Deadpool.Py.JsonRoundTrip
import Deadpool.Remote.Config
import Deadpool.Remote.Protocol
import Deadpool.Remote.Control
import Deadpool.Remote.Framing
import Deadpool.Remote.Envelope
import Deadpool.Remote.ClientCalls
import Deadpool.Remote.Outcome
import Deadpool.Remote.Scheduler
import Deadpool.Remote.Broker.State
import Deadpool.Remote.Broker.Step
import Deadpool.Remote.Plan
import Deadpool.Lookup
import Deadpool.Remote.Broker.Micro
import Deadpool.Remote.Broker.Wellformed
import Deadpool.Remote.Broker.Placement
import Deadpool.Remote.Broker.Evolve
import Deadpool.Remote.Broker.Chain
import Deadpool.Remote.Broker.Lifecycle
import Deadpool.Remote.Broker.Isolation
import Deadpool.Pool.Backlog
import Deadpool.Pool.Scaling
import Deadpool.Pool.ScaleDown
import Deadpool.Pool.ShutdownFlags
import Deadpool.Remote.Reassembly
import Deadpool.Remote.Interleaving
import Deadpool.Remote.Fairness
import Deadpool.Remote.Broker.CleanClose
import Deadpool.Remote.Worker
import Deadpool.Remote.Broker.Reservation
import Deadpool.Pool.KillRunning
import Deadpool.Remote.Broker.Release
import Deadpool.Pool.Initializer
import Deadpool.Pool.Outcome
import Deadpool.Pool.Failures
import Deadpool.Remote.BindUnix
import Deadpool.Remote.Cleanup
import Deadpool.Remote.Broker.Caps
import Deadpool.Remote.Client.Callbacks
import Deadpool.Remote.Client.Rpc
import Deadpool.Remote.Broker.Speech
import Deadpool.Remote.Broker.Told
import Deadpool.Remote.Broker.Drain
import Deadpool.Remote.Broker.Admission
import Deadpool.Remote.Broker.Handshake
import Deadpool.Py.Utf8Prefix
import Deadpool.Remote.Restart
import Deadpool.Remote.Truncation
import Deadpool.Remote.Fitting
import Deadpool.Remote.LaterFrames
import Deadpool.Py.JsonGrammar
import Deadpool.Remote.JsonErrors
import Deadpool.Remote.Client.Errors
import Deadpool.Remote.Client.Core
import Deadpool.Remote.Client.Lane
import Deadpool.Pool.FutureKill
import Deadpool.Remote.Client.Moves
import Deadpool.Remote.Client.Slots
import Deadpool.Remote.Client.Registry
import Deadpool.Remote.Client.Cover
import Deadpool.Remote.Broker.Frame
import Deadpool.Remote.Broker.Answers
import Deadpool.Remote.Broker.Inbox
import Deadpool.Remote.Broker.Reports
import Deadpool.Remote.Client.Endpoint
import Deadpool.Remote.Client.Ends
import Deadpool.Remote.Link
import Deadpool.Remote.Certainty
import Deadpool.Remote.Client.Noted
import Deadpool.Remote.Goodbye
import Deadpool.Remote.Overtaking
import Deadpool.Remote.Agreement
