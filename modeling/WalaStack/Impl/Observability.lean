import Mathlib.Data.List.AList
import WalaStack.Framework.Channels
import WalaStack.Impl.Runtime.Scheduler
import WalaStack.Impl.Runtime.Supervision

/-!
# The health registry

`ObservabilityState` of `walastack-observability/src/lib.rs`: the services'
health, the totals of the events observed and the runtime phase, with the
functions that `ObservabilityService` applies to them on each event, and the
loop in which it receives them, each event type on a channel of its own.
-/

namespace WalaStack.Impl.Observability

open WalaStack.Rust WalaStack.Impl.Runtime WalaStack.Channels

/-- Overall health classification. -/
inductive HealthStatus
  | ok
  | degraded
  | failed
  | unknown
deriving DecidableEq, Repr

/-- Kernel lifecycle phase as observed by the service. -/
inductive RuntimePhase
  | initializing
  | running
  | stopping
  | stopped
deriving DecidableEq, Repr

/-- Per-service health snapshot. -/
structure ServiceHealth where
  name : String
  status : HealthStatus
  starts : Nat
  failures : Nat
  lastError : Option String
deriving DecidableEq, Repr

/-- Running totals of the events observed, as `u64`. -/
structure EventCounts where
  servicesStarted : Nat
  servicesStopped : Nat
  servicesFailed : Nat
  tasksFired : Nat
  tasksCompleted : Nat
  tasksFailed : Nat
  tasksRetrying : Nat
deriving DecidableEq, Repr

def EventCounts.default : EventCounts := ⟨0, 0, 0, 0, 0, 0, 0⟩

/-- `n.saturating_add(1)` on `u64`. -/
def incr (n : Nat) : Nat := min (n + 1) u64Max

structure ObservabilityState where
  services : AList fun _ : String => ServiceHealth
  counts : EventCounts
  phase : RuntimePhase

namespace ObservabilityState

/-- `ObservabilityState::default` -/
def default : ObservabilityState := ⟨∅, .default, .initializing⟩

def onServiceStarted (st : ObservabilityState) (name : String) : ObservabilityState :=
  let entry := (st.services.lookup name).getD ⟨name, .ok, 0, 0, none⟩
  { st with
    counts := { st.counts with servicesStarted := incr st.counts.servicesStarted }
    services := st.services.insert name
      { entry with status := .ok, starts := saturatingAdd entry.starts 1 } }

def onServiceStopped (st : ObservabilityState) (name : String) : ObservabilityState :=
  { st with
    counts := { st.counts with servicesStopped := incr st.counts.servicesStopped }
    services :=
      match st.services.lookup name with
      | some entry => st.services.insert name { entry with status := .ok }
      | none => st.services }

def onServiceFailed (st : ObservabilityState) (name error : String) (willRestart : Bool) :
    ObservabilityState :=
  let entry := (st.services.lookup name).getD ⟨name, .failed, 0, 0, none⟩
  { st with
    counts := { st.counts with servicesFailed := incr st.counts.servicesFailed }
    services := st.services.insert name
      { entry with
        failures := saturatingAdd entry.failures 1
        lastError := some error
        status := if willRestart then .degraded else .failed } }

/-- What the service does with a lifecycle event of supervision. -/
def apply (st : ObservabilityState) : LifecycleEvent → ObservabilityState
  | .started name _ => st.onServiceStarted name
  | .stopped name => st.onServiceStopped name
  | .failed name error _ willRestart => st.onServiceFailed name error willRestart

/-- Overall classification: the services' statuses, in any order. -/
def overall (st : ObservabilityState) : HealthStatus :=
  let statuses := st.services.entries.map fun e => e.2.status
  if statuses = [] then .unknown
  else if .failed ∈ statuses then .failed
  else if .degraded ∈ statuses then .degraded
  else .ok

/-- `HealthRegistry::service` -/
def service (st : ObservabilityState) (name : String) : Option ServiceHealth := st.services.lookup name

end ObservabilityState

/-! ## The events subscribed to -/

/-- `RuntimeStarted`, `RuntimeStopping` and `RuntimeStopped`. -/
inductive RuntimeEvent
  | started
  | stopping
  | stopped
deriving DecidableEq, Repr

/-- An event subscribed to. Of the scheduler's only the numbers are kept. -/
inductive Observed
  | service (e : LifecycleEvent)
  | runtime (e : RuntimeEvent)
  | task (e : TaskEvent)
deriving DecidableEq, Repr

/-- The receivers of the loop. The bus has one broadcast channel for each
event type. -/
inductive Channel
  | svcStarted
  | svcStopped
  | svcFailed
  | runtime (e : RuntimeEvent)
  | taskFired
  | taskCompleted
  | taskFailed
  | taskRetrying
deriving DecidableEq, Repr

def Observed.channel : Observed → Channel
  | .service (.started _ _) => .svcStarted
  | .service (.stopped _) => .svcStopped
  | .service (.failed _ _ _ _) => .svcFailed
  | .runtime e => .runtime e
  | .task (.fired _ _) => .taskFired
  | .task (.completed _ _) => .taskCompleted
  | .task (.failed _ _ _) => .taskFailed
  | .task (.retrying _ _ _) => .taskRetrying

namespace ObservabilityState

def setPhase (st : ObservabilityState) : RuntimeEvent → ObservabilityState
  | .started => { st with phase := .running }
  | .stopping => { st with phase := .stopping }
  | .stopped => { st with phase := .stopped }

def onTask (st : ObservabilityState) : TaskEvent → ObservabilityState
  | .fired _ _ => { st with counts := { st.counts with tasksFired := incr st.counts.tasksFired } }
  | .completed _ _ => { st with counts := { st.counts with tasksCompleted := incr st.counts.tasksCompleted } }
  | .failed _ _ _ => { st with counts := { st.counts with tasksFailed := incr st.counts.tasksFailed } }
  | .retrying _ _ _ => { st with counts := { st.counts with tasksRetrying := incr st.counts.tasksRetrying } }

/-- The handlers of the loop's branches. -/
def observe (st : ObservabilityState) : Observed → ObservabilityState
  | .service e => st.apply e
  | .runtime e => st.setPhase e
  | .task e => st.onTask e

end ObservabilityState

/-! ## The loop -/

/-- The task that `ObservabilityService::start` spawns, subscribed to every
channel. -/
structure Observer where
  receivers : Reader Channel Observed ObservabilityState
  running : Bool

inductive ObserverAction
  /-- An event is published on the bus. -/
  | publish (e : Observed)
  /-- The select takes the branch of a receiver that has an event. -/
  | recv (k : Channel)
  /-- The select takes the shutdown branch. -/
  | shutdown

namespace Observer

def init : Observer := ⟨.init .default, true⟩

def step (o : Observer) : ObserverAction → Option Observer
  | .publish e => (o.receivers.step Observed.channel .observe (.publish e)).map fun r => { o with receivers := r }
  | .recv k =>
    if o.running then
      (o.receivers.step Observed.channel .observe (.recv k)).map fun r => { o with receivers := r }
    else none
  | .shutdown => if o.running then some { o with running := false } else none

end Observer

end WalaStack.Impl.Observability
