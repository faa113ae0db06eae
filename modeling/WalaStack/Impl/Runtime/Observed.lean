import WalaStack.Impl.Observability
import WalaStack.Impl.Runtime.Shutdown

/-!
# A runtime with an observer

The observability service of a `Runtime`: `start_service` starts its root task
and its watcher, which watch the shutdown signal both, and `shutdown_gracefully`
drains the watcher before it publishes `RuntimeStopped`. The other services of
the runtime are in the events that they publish, and in how long a drain takes.
No event is lost to lag.
-/

namespace WalaStack.Impl.Observability

open WalaStack.Impl.Runtime

structure ObservedRuntime where
  shutdown : Shutdown
  /-- The root task, once it has been started. -/
  observer : Option Observer
  /-- What its loop has received. -/
  received : List Observed
  /-- Its watcher runs. -/
  watched : Bool
  /-- The watcher has called `handle.abort()`. -/
  aborted : Bool
  /-- The map of the supervision tree holds the watcher. -/
  held : Bool
  /-- The drain under way is yet to await the watcher, or awaits it. -/
  awaited : Bool
  /-- `shutdown_now` has aborted the watcher. -/
  doomed : Bool

inductive ObservedAction
  /-- A step of the calls of `EventBus::shutdown` and `shutdown_gracefully`. -/
  | shutdown (a : ShutdownAction)
  /-- `start_service` is called with the service. -/
  | startService
  /-- `Runtime::start` publishes `RuntimeStarted`. -/
  | started
  /-- A service or the scheduler publishes an event. -/
  | serviceEvent (e : LifecycleEvent)
  | taskEvent (e : TaskEvent)
  /-- The select takes the branch of a receiver, -/
  | recv (k : Channel)
  /-- or the one of the shutdown signal. -/
  | breaks
  /-- The watcher takes the branch of the shutdown signal, -/
  | aborts
  /-- and the runtime drops the task that it aborted. -/
  | cancelled
  /-- The watcher joins the task, which has ended. -/
  | joins
  /-- The drain finds the watcher ended, -/
  | drained
  /-- or its timeout on the watcher elapses. -/
  | elapsed
  /-- `SupervisionTree::shutdown_now` -/
  | shutdownNow
  /-- The aborted watcher is dropped, and its task detached. -/
  | dropped

namespace ObservedRuntime

def new : ObservedRuntime := ⟨.new, none, [], false, false, false, false, false⟩

def publish (s : ObservedRuntime) (e : Observed) : ObservedRuntime :=
  { s with
    observer := s.observer.map fun o => { o with receivers := o.receivers.push Observed.channel e } }

/-- `children.drain()`: the handle goes to the drain. -/
def takeHandle (s : ObservedRuntime) : ObservedRuntime := { s with held := false, awaited := s.held }

/-- What a step of the calls does to the observer and its watcher's handle. -/
def onShutdown (s : ObservedRuntime) : ShutdownAction → ObservedRuntime
  | .publish _ => s.publish (.runtime .stopping)
  | .stop => s.publish (.runtime .stopped)
  | .check | .signalled => if s.shutdown.graceful = .draining then s.takeHandle else s
  | .drop => { s with awaited := false }
  | .call | .read _ | .set _ | .gracefully | .drained => s

/-- The task is running. -/
def running (s : ObservedRuntime) : Bool := s.observer.any Observer.running

/-- The task has ended. -/
def ended (s : ObservedRuntime) : Bool := s.observer.any fun o => !o.running

def endTask (s : ObservedRuntime) : ObservedRuntime :=
  { s with observer := s.observer.map fun o => { o with running := false } }

/-- The service is called "observability", and supervised as `OneShot`. -/
def startService (s : ObservedRuntime) : ObservedRuntime :=
  { ({ s with observer := some .init } : ObservedRuntime).publish (.service (.started "observability" 1)) with
    watched := true
    held := true }

/-- The `recv` of a channel, with its handler. -/
def recv (s : ObservedRuntime) (k : Channel) : Option ObservedRuntime :=
  match s.observer with
  | some o =>
    (o.step (.recv k)).map fun o' =>
      { s with observer := some o', received := s.received ++ (o.receivers.unread k).take 1 }
  | none => none

def step (s : ObservedRuntime) : ObservedAction → Option ObservedRuntime
  | .shutdown a =>
    if a = .drained ∧ s.awaited = true then none
    else (s.shutdown.step a).map fun sh => ({ s with shutdown := sh } : ObservedRuntime).onShutdown a
  | .startService =>
    if s.shutdown.graceful = .idle ∧ s.observer.isNone = true then some s.startService else none
  | .started => if s.shutdown.graceful = .idle then some (s.publish (.runtime .started)) else none
  | .serviceEvent e => some (s.publish (.service e))
  | .taskEvent e => some (s.publish (.task e))
  | .recv k => s.recv k
  | .breaks => if s.shutdown.down = true ∧ s.running = true then some s.endTask else none
  | .aborts =>
    if s.shutdown.down = true ∧ s.watched = true then some { s with watched := false, aborted := true } else none
  | .cancelled => if s.aborted = true ∧ s.running = true then some s.endTask else none
  | .joins =>
    if s.ended = true ∧ s.watched = true then
      some { s.publish (.service (.stopped "observability")) with watched := false }
    else none
  | .drained => if s.awaited = true ∧ s.watched = false then some { s with awaited := false } else none
  | .elapsed => if s.awaited = true then some { s with awaited := false } else none
  | .shutdownNow => some { s with held := false, doomed := s.doomed || s.held }
  | .dropped => if s.doomed = true ∧ s.watched = true then some { s with watched := false } else none

/-- `HealthRegistry::runtime_phase` -/
def runtimePhase (s : ObservedRuntime) : RuntimePhase :=
  (s.observer.elim ObservabilityState.default fun o => o.receivers.state).phase

end ObservedRuntime

end WalaStack.Impl.Observability
