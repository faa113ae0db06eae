import WalaStack.Impl.Runtime.Supervision

/-!
# One supervised MCP server

`McpServerService` of `walastack-mcp/src/service.rs` under the policy that
`McpPlugin::register_services` gives it: the watcher of the service, with the
per-server task (ping loop and clean-up) as its root task. Secrets, the
subprocess and the handshake are in what `Service::start` resolves to; what a
ping is answered is an action.
-/

namespace WalaStack.Impl.Mcp

open WalaStack.Rust WalaStack.Impl.Runtime

/-- The events that the service publishes. -/
inductive McpEvent
  /-- `McpServerConnected` -/
  | connected (server : String)
  /-- `McpServerDisconnected` -/
  | disconnected (server : String) (reason : Option String)
  /-- `McpServerUnhealthy` -/
  | unhealthy (server : String) (reason : String)
deriving DecidableEq, Repr

/-- What the service reads of its `McpServerSpec` and `McpConfig`. -/
structure McpServerService where
  id : String
  pingInterval : Duration

/-- The policy of `McpPlugin::register_services`: unlimited restarts. -/
def restartPolicy : RestartPolicy :=
  .onFailure U32.max (.linear (Duration.fromSecs 1) (Duration.fromSecs 1))

def McpServerService.supervised (svc : McpServerService) : Supervised :=
  ⟨"mcp-" ++ svc.id, restartPolicy⟩

/-- The await that the per-server task is at. -/
inductive Task
  /-- The select on the shutdown signal and the sleep, which ends at `wake`. -/
  | selecting (wake : Nat)
  /-- `connection.request("ping", ..)` -/
  | pinging
  /-- `connection.close()` -/
  | closing
  /-- `stdio.remove(&server_id)` -/
  | removing
deriving DecidableEq, Repr

/-- The service with its kernel and its watcher. -/
structure Server where
  kernel : Kernel
  watcher : Watcher
  /-- `none` when no per-server task runs. -/
  task : Option Task
  /-- The connection held in the shared map under the server's id, by the
  number of the start that opened it. -/
  connection : Option Nat
  /-- The number of `Service::start` calls so far. -/
  starts : Nat
  /-- The number of pings answered. -/
  pings : Nat
  /-- The events, each with the number of `Service::start` calls before it. -/
  events : List (McpEvent × Nat)

namespace Server

def init (k : Kernel) : Server := ⟨k, .init k, none, none, 1, 0, []⟩

def publish (s : Server) (e : McpEvent) : Server := { s with events := s.events ++ [(e, s.starts)] }

end Server

inductive ServerAction
  | tick (d : Nat)
  | signal
  /-- A step of `start_service` or the watcher. -/
  | watch (a : WatcherAction)
  /-- The branch `() = tokio::time::sleep(ping_interval)`. -/
  | slept
  /-- The ping is answered; an error comes with its text. -/
  | answered (result : Except String Unit)
  /-- The branch `() = shutdown.wait()` of the per-server task. -/
  | shutdown
  | closed
  | removed

/-- What a step of the watcher does to the per-server task: a start that
succeeds has opened a connection and spawned it, and shutdown aborts it. -/
def Server.onWatch (svc : McpServerService) (s : Server) (w : Watcher) : WatcherAction → Server
  | .started (.ok ()) =>
    let s := { s with connection := some s.starts }.publish (.connected svc.id)
    { s with watcher := w, task := some (.selecting (s.kernel.now + svc.pingInterval.nanos)) }
  | .slept => { s with watcher := w, starts := s.starts + 1 }
  | .shutdown => { s with watcher := w, task := none }
  | _ => { s with watcher := w }

def Server.step (svc : McpServerService) (s : Server) : ServerAction → Option Server
  | .tick d => some { s with kernel := { s.kernel with now := s.kernel.now + d } }
  | .signal => some { s with kernel := { s.kernel with shutdown := true } }
  | .watch a =>
    if s.watcher.owns a then
      (s.watcher.step svc.supervised s.kernel a).map fun w => s.onWatch svc w a
    else none
  | .slept =>
    match s.task with
    | some (.selecting wake) => if wake ≤ s.kernel.now then some { s with task := some .pinging } else none
    | _ => none
  | .answered result =>
    match s.task, result with
    | some .pinging, .ok () =>
      some { s with
        pings := s.pings + 1
        task := some (.selecting (s.kernel.now + svc.pingInterval.nanos)) }
    | some .pinging, .error e =>
      some { s.publish (.unhealthy svc.id e) with pings := s.pings + 1, task := some .closing }
    | _, _ => none
  | .shutdown =>
    match s.task with
    | some (.selecting _) => if s.kernel.shutdown then some { s with task := some .closing } else none
    | _ => none
  | .closed =>
    match s.task with
    | some .closing => some { s with task := some .removing }
    | _ => none
  | .removed =>
    match s.task with
    | some .removing =>
      (s.watcher.step svc.supervised s.kernel (.exits .ok)).map fun w =>
        { ({ s with connection := none }).publish (.disconnected svc.id none) with
          watcher := w
          task := none }
    | _ => none

end WalaStack.Impl.Mcp
