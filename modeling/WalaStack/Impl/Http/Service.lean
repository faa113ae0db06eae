import WalaStack.Impl.Runtime.Supervision

/-!
# `HttpService`

The transport of `walastack-app/src/lib.rs`, under its watcher: `accept_loop`
as the root task, and the task that it spawns for each connection. `hyper`
reads the heads of the requests on a connection one after the other, and runs
`serve_request` on each.
-/

namespace WalaStack.Impl.Http

open WalaStack.Impl.Runtime

/-! ## Connections -/

/-- The await that the task of a connection is at. -/
inductive ConnectionTask
  /-- `hyper` awaits the next head. -/
  | idle
  /-- `body.collect()`, of a request whose head was read `early`: before the
  shutdown signal. -/
  | collecting (early : Bool)
  /-- `handler(req)` -/
  | handling (early : Bool)
  | ended
deriving DecidableEq, Repr

inductive ConnectionAction
  | head
  /-- The body is read; whether the router has a handler for the request. -/
  | collected (routed : Bool)
  | failed
  | responded
  /-- `serve_connection` returns, or the task panics. -/
  | ended
deriving DecidableEq, Repr

/-- A step of a connection's task; `down` is the shutdown signal. -/
def ConnectionTask.step (down : Bool) : ConnectionTask → ConnectionAction → Option ConnectionTask
  | .idle, .head => some (.collecting !down)
  | .collecting early, .collected true => some (.handling early)
  -- The responses `not_found()` and `bad_request(..)` are there at once.
  | .collecting _, .collected false => some .idle
  | .collecting _, .failed => some .idle
  | .handling _, .responded => some .idle
  | .ended, .ended => none
  | _, .ended => some .ended
  | _, _ => none

/-! ## The service -/

structure HttpService where
  system : System
  connections : List ConnectionTask
  /-- An accept loop has returned. -/
  ended : Bool
  /-- `drain` has counted the service's watcher. -/
  graceful : Bool

inductive HttpAction
  /-- A step of the kernel, or one of the watcher's own. -/
  | system (a : SystemAction)
  /-- The branch `accept_result = listener.accept()`. -/
  | accepted
  | acceptFailed
  /-- The branch `() = shutdown.wait()`. -/
  | breaks
  | connection (i : Nat) (a : ConnectionAction)
  /-- The timeout that `drain` puts on the watcher ends with `Ok`. -/
  | drained

namespace HttpService

def init (k : Kernel) : HttpService := ⟨.init k, [], false, false⟩

/-- The accept loop runs. -/
def loopRuns (s : HttpService) : Bool := s.system.watcher.phase == .watching && s.system.watcher.handle == ⟨true, none⟩

def step (svc : Supervised) (s : HttpService) : HttpAction → Option HttpService
  | .system (.watch a) =>
    if s.system.watcher.owns a then
      (s.system.step svc (.watch a)).map fun system => { s with system := system }
    else none
  | .system a => (s.system.step svc a).map fun system => { s with system := system }
  | .accepted => if s.loopRuns then some { s with connections := s.connections ++ [.idle] } else none
  | .acceptFailed => if s.loopRuns then some s else none
  | .breaks =>
    if s.loopRuns && s.system.kernel.shutdown then
      (s.system.step svc (.watch (.exits .ok))).map fun system => { s with system := system, ended := true }
    else none
  | .connection i a =>
    match s.connections[i]? with
    | some task =>
      (task.step s.system.kernel.shutdown a).map fun task =>
        { s with connections := s.connections.set i task }
    | none => none
  | .drained => if s.system.watcher.phase = .returned then some { s with graceful := true } else none

end HttpService

end WalaStack.Impl.Http
