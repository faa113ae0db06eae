import Mathlib.Logic.Function.Basic
import WalaStack.Impl.Mcp.Server

/-!
# The sessions of all MCP servers

Any number of `McpServerService`s share one `StdioMcp` of
`walastack-mcp/src/stdio.rs`. A session is what comes of one call of
`Service::start`, by `start_service` or by the restart of a watcher: the
connection that it opens, and the per-server task. The shared map holds a
connection by the number of its session.
-/

namespace WalaStack.Impl.Mcp

/-- Where a session is: in `start`, in the per-server task, or at its end. -/
inductive SessionPhase
  /-- `StdioConnection::open` -/
  | opening
  /-- `stdio.insert(..)` -/
  | inserting
  /-- Before `runtime.publish(McpServerConnected { .. })`. -/
  | announcing
  /-- The select on the shutdown signal and the sleep. -/
  | selecting
  /-- `connection.request("ping", ..)` -/
  | pinging
  /-- `connection.close()` -/
  | closing
  /-- `stdio.remove(&server_id)` -/
  | removing
  /-- Before `runtime.publish(McpServerDisconnected { .. })`. -/
  | publishing
  /-- Behind it. -/
  | finishing
  /-- The task has returned, was dropped, or has panicked. -/
  | ended
  /-- `start` returned an error, or its caller dropped it. -/
  | refused
deriving DecidableEq, Repr

namespace SessionPhase

/-- The per-server task runs. -/
def runs : SessionPhase → Bool
  | .selecting | .pinging | .closing | .removing | .publishing | .finishing => true
  | .opening | .inserting | .announcing | .ended | .refused => false

/-- The per-server task is at an await. -/
def awaits : SessionPhase → Bool
  | .selecting | .pinging | .closing | .removing => true
  | .opening | .inserting | .announcing | .publishing | .finishing | .ended | .refused => false

end SessionPhase

structure Session where
  /-- `spec.id` -/
  server : String
  phase : SessionPhase
  /-- The watcher has called `handle.abort()`. -/
  aborted : Bool
deriving DecidableEq, Repr

/-- What happened, in order. -/
inductive SessionEntry
  | connected (i : Nat)
  | unhealthy (i : Nat) (reason : String)
  /-- The clean-up of a session removed a connection, or found none. -/
  | removed (i : Nat) (connection : Option Nat)
  | disconnected (i : Nat)
deriving DecidableEq, Repr

inductive SessionAction
  | opened (result : Except String Unit)
  /-- The caller drops the future of `start` at an await. -/
  | abandon
  | inserted
  | announced
  /-- The branch `() = tokio::time::sleep(ping_interval)`. -/
  | slept
  | answered (result : Except String Unit)
  /-- The branch `() = shutdown.wait()`. -/
  | shutdown
  | closed
  | removed
  | published
  | returned
  /-- The watcher takes its shutdown branch, -/
  | abort
  /-- and the runtime drops the task. -/
  | cancelled
  | panicked

namespace Session

def goto (st : Session) (p : SessionPhase) : Session := { st with phase := p }

/-- A step of session `i`, with the signal and the connection that the map
holds under the session's server id: the session, the connection held, and what
is logged. -/
def step (down : Bool) (i : Nat) (held : Option Nat) (st : Session) :
    SessionAction → Option (Session × Option Nat × List SessionEntry)
  | .opened (.ok ()) => if st.phase = .opening then some (st.goto .inserting, held, []) else none
  | .opened (.error _) => if st.phase = .opening then some (st.goto .refused, held, []) else none
  | .abandon =>
    if st.phase = .opening ∨ st.phase = .inserting then some (st.goto .refused, held, []) else none
  | .inserted => if st.phase = .inserting then some (st.goto .announcing, some i, []) else none
  | .announced => if st.phase = .announcing then some (st.goto .selecting, held, [.connected i]) else none
  | .slept => if st.phase = .selecting then some (st.goto .pinging, held, []) else none
  | .answered (.ok ()) => if st.phase = .pinging then some (st.goto .selecting, held, []) else none
  | .answered (.error e) => if st.phase = .pinging then some (st.goto .closing, held, [.unhealthy i e]) else none
  | .shutdown => if st.phase = .selecting ∧ down = true then some (st.goto .closing, held, []) else none
  | .closed => if st.phase = .closing then some (st.goto .removing, held, []) else none
  | .removed => if st.phase = .removing then some (st.goto .publishing, none, [.removed i held]) else none
  | .published => if st.phase = .publishing then some (st.goto .finishing, held, [.disconnected i]) else none
  | .returned => if st.phase = .finishing then some (st.goto .ended, held, []) else none
  | .abort => if st.phase.runs = true ∧ down = true then some ({ st with aborted := true }, held, []) else none
  | .cancelled => if st.phase.awaits = true ∧ st.aborted = true then some (st.goto .ended, held, []) else none
  | .panicked => if st.phase.runs = true then some (st.goto .ended, held, []) else none

end Session

/-- All sessions, with the shutdown signal and the shared map. -/
structure Sessions where
  down : Bool
  connections : String → Option Nat
  sessions : List Session
  log : List SessionEntry

inductive SessionsAction
  | signal
  /-- `Service::start` is called on a service with this server id. -/
  | start (server : String)
  | session (i : Nat) (a : SessionAction)

namespace Sessions

def new : Sessions := ⟨false, fun _ => none, [], []⟩

def step (s : Sessions) : SessionsAction → Option Sessions
  | .signal => some { s with down := true }
  | .start server => some { s with sessions := s.sessions ++ [⟨server, .opening, false⟩] }
  | .session i a =>
    match s.sessions[i]? with
    | some st =>
      (st.step s.down i (s.connections st.server) a).map fun (st', held, entries) =>
        { s with
          connections := Function.update s.connections st.server held
          sessions := s.sessions.set i st'
          log := s.log ++ entries }
    | none => none

end Sessions

end WalaStack.Impl.Mcp
