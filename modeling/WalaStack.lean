import WalaStack.Framework.Transition
import WalaStack.Framework.Log
import WalaStack.Rust.Num
import WalaStack.Rust.Chrono
import WalaStack.Impl.Runtime.Backoff
import WalaStack.Impl.Runtime.Supervision
import WalaStack.Impl.Runtime.Scheduler
import WalaStack.Spec.Supervision
import WalaStack.Impl.Observability
import WalaStack.Proof.Supervision.Steps
import WalaStack.Proof.Supervision.History
import WalaStack.Proof.Supervision.Restart
import WalaStack.Proof.Supervision.Health
import WalaStack.Proof.Supervision.Drain
import WalaStack.Rust.Json
import WalaStack.Impl.Mcp.JsonRpc
import WalaStack.Spec.JsonRpc
import WalaStack.Proof.Mcp.JsonRpc
import WalaStack.Impl.Mcp.Connection
import WalaStack.Spec.Connection
import WalaStack.Proof.Mcp.Stdio.Steps
import WalaStack.Proof.Mcp.Stdio.Moves
import WalaStack.Proof.Mcp.Stdio.Correlation
import WalaStack.Impl.Mcp.Server
import WalaStack.Spec.Server
import WalaStack.Proof.Mcp.Server
import WalaStack.Impl.Jobs.Store
import WalaStack.Spec.JobStore
import WalaStack.Impl.Jobs.Desk
import WalaStack.Impl.Jobs.Worker
import WalaStack.Proof.Scheduler.Steps
import WalaStack.Spec.Backoff
import WalaStack.Proof.Backoff
import WalaStack.Proof.Jobs.InMemory
import WalaStack.Impl.Jobs.Sqlite
import WalaStack.Proof.Jobs.Sqlite
import WalaStack.Proof.Jobs.Desk
import WalaStack.Proof.Jobs.HandOut
import WalaStack.Proof.Jobs.Pool
import WalaStack.Proof.Jobs.Delivery
import WalaStack.Proof.Supervision.Paths
import WalaStack.Proof.Supervision.Stopped
import WalaStack.Spec.Attempts
import WalaStack.Proof.Supervision.Attempts
import WalaStack.Framework.Channels
import WalaStack.Spec.Health
import WalaStack.Proof.Observability
import WalaStack.Proof.Jobs.Queues
import WalaStack.Spec.Lifecycle
import WalaStack.Proof.Jobs.Lifecycle
import WalaStack.Impl.Jobs.WorkerLoop
import WalaStack.Spec.WorkerLoop
import WalaStack.Proof.Jobs.WorkerLoop
import WalaStack.Impl.Runtime.Capabilities
import WalaStack.Impl.Runtime.Plugins
import WalaStack.Spec.Capabilities
import WalaStack.Proof.Capabilities
import WalaStack.Impl.Runtime.SupervisionTree
import WalaStack.Spec.SupervisionTree
import WalaStack.Proof.Supervision.Tree
import WalaStack.Proof.Supervision.Supervised
import WalaStack.Impl.Runtime.Runtime
import WalaStack.Spec.Quiescence
import WalaStack.Proof.Quiescence
import WalaStack.Framework.Decimal
import WalaStack.Rust.Rfc3339
import WalaStack.Spec.Substitution
import WalaStack.Proof.Jobs.Substitution
import WalaStack.Framework.Parties
import WalaStack.Impl.Runtime.Shutdown
import WalaStack.Spec.Shutdown
import WalaStack.Proof.Shutdown
import WalaStack.Impl.Runtime.Observed
import WalaStack.Spec.Phase
import WalaStack.Proof.Phase
import WalaStack.Impl.Runtime.Start
import WalaStack.Spec.StartOrder
import WalaStack.Proof.StartOrder
import WalaStack.Spec.Composition
import WalaStack.Proof.Composition
import WalaStack.Framework.Frames
import WalaStack.Spec.Framing
import WalaStack.Proof.Mcp.Stdio.Framing
import WalaStack.Impl.Mcp.Sessions
import WalaStack.Spec.Sessions
import WalaStack.Proof.Mcp.Sessions
import WalaStack.Framework.Segments
import WalaStack.Impl.Http.Router
import WalaStack.Impl.Http.OpenApi
import WalaStack.Impl.Http.App
import WalaStack.Spec.Templates
import WalaStack.Proof.Http.Templates
import WalaStack.Spec.Normalization
import WalaStack.Proof.Http.Normalization
import WalaStack.Framework.NestedMap
import WalaStack.Impl.Http.Document
import WalaStack.Spec.Document
import WalaStack.Proof.Http.Metadata
import WalaStack.Proof.Http.Document
import WalaStack.Framework.Progress
import WalaStack.Impl.Jobs.Plugin
import WalaStack.Spec.Polling
import WalaStack.Proof.Jobs.Polling
import WalaStack.Impl.Http.Service
import WalaStack.Spec.HttpDrain
import WalaStack.Proof.Http.Drain
import WalaStack.Impl.Runtime.Drain
import WalaStack.Spec.Drain
import WalaStack.Proof.Supervision.Deadline
import WalaStack.Framework.Arrivals
import WalaStack.Spec.Selection
import WalaStack.Proof.Jobs.Selection
import WalaStack.Proof.Jobs.Chronology
import WalaStack.Rust.ParseRfc3339
import WalaStack.Spec.Decoding
import WalaStack.Proof.Jobs.Decoding
import WalaStack.Proof.Jobs.RoundTrip
import WalaStack.Spec.FireTrace
import WalaStack.Proof.Scheduler.Trace
import WalaStack.Proof.Scheduler.Cancel
import WalaStack.Impl.Runtime.SchedulerTasks
import WalaStack.Spec.SchedulerTasks
import WalaStack.Proof.Scheduler.Tasks
import WalaStack.Spec.Spacing
import WalaStack.Proof.Scheduler.Spacing
import WalaStack.Spec.Firing
import WalaStack.Proof.Scheduler.Waits
import WalaStack.Proof.Scheduler.Cron
import WalaStack.Proof.Scheduler.FixedRate
import WalaStack.Spec.Rotation
import WalaStack.Proof.Rotation
import WalaStack.Proof.Turns
import WalaStack.Proof.RetryTimes
import WalaStack.Framework.Powers
import WalaStack.Proof.Exponential
import WalaStack.Spec.Pending
import WalaStack.Proof.Mcp.Stdio.Pending
import WalaStack.Impl.Runtime.EventBus
import WalaStack.Spec.EventBus
import WalaStack.Proof.EventBus
import WalaStack.Framework.FairLock
import WalaStack.Impl.Mcp.Registry
import WalaStack.Spec.Registry
import WalaStack.Proof.Mcp.Registry
import WalaStack.Impl.Http.Extract
import WalaStack.Spec.Extraction
import WalaStack.Proof.Http.Extraction
import WalaStack.Impl.Mcp.Descriptors
import WalaStack.Spec.Descriptors
import WalaStack.Proof.Mcp.Descriptors
import WalaStack.Impl.Auth.Jwt
import WalaStack.Spec.Auth
import WalaStack.Proof.Auth
import WalaStack.Rust.Utf8
import WalaStack.Framework.Lines
import WalaStack.Impl.Mcp.Dialogue
import WalaStack.Spec.Dialogue
import WalaStack.Proof.Mcp.Dialogue.Calls
import WalaStack.Proof.Mcp.Dialogue.Stdin
import WalaStack.Proof.Mcp.Dialogue.Reader
import WalaStack.Proof.Mcp.Dialogue.Answers
import WalaStack.Impl.Mcp.Client
import WalaStack.Spec.Client
import WalaStack.Proof.Mcp.Client
import WalaStack.Impl.Http.Request
import WalaStack.Impl.Http.Handler
import WalaStack.Spec.Handling
import WalaStack.Proof.Http.Handling
import WalaStack.Spec.Routing
import WalaStack.Spec.Description
import WalaStack.Proof.Http.Routing
import WalaStack.Proof.Http.Description
import WalaStack.Impl.Runtime.Run
import WalaStack.Spec.Run
import WalaStack.Proof.Run.Steps
import WalaStack.Proof.Run.Through
import WalaStack.Proof.Run.Awaits
import WalaStack.Impl.Mcp.Open
import WalaStack.Spec.Handshake
import WalaStack.Proof.Mcp.Dialogue.Handshake
import WalaStack.Spec.WorkQueue
import WalaStack.Proof.WorkQueue
import WalaStack.Framework.Broadcast
import WalaStack.Impl.Runtime.Subscribers
import WalaStack.Spec.Subscribers
import WalaStack.Proof.Subscribers
import WalaStack.Impl.ObservabilityLoop
import WalaStack.Spec.Lag
import WalaStack.Proof.Lag
import WalaStack.Impl.Metered
import WalaStack.Spec.Metered
import WalaStack.Proof.Metered
import WalaStack.Impl.Mcp.Env
import WalaStack.Spec.Env
import WalaStack.Proof.Mcp.Env
