import WalaStack.Framework.Transition
import WalaStack.Impl.Runtime.Backoff

/-!
# Supervision of services

`walastack-runtime/src/supervision.rs`: the restart policies, and
`SupervisionTree::start_service` with the watcher `supervise` that it spawns,
as a transition system.

`Watcher.step` takes one action at a time. What the watcher does between two
awaits is one step; the actions say what the tasks it awaits do (`started`,
`exits`) and which ready branch a `tokio::select!` takes (`joined`, `slept`,
`shutdown`). The clock and the shutdown flag belong to the kernel, so that
watchers share them: `System` is one watcher with its kernel.
-/

namespace WalaStack.Impl.Runtime

open WalaStack.Rust

/-! ## Lifecycle events -/

/-- The lifecycle events published by supervision. -/
inductive LifecycleEvent
  /-- `ServiceStarted` -/
  | started (name : String) (attempt : Nat)
  /-- `ServiceStopped` -/
  | stopped (name : String)
  /-- `ServiceFailed` -/
  | failed (name : String) (error : String) (attempt : Nat) (willRestart : Bool)
deriving DecidableEq, Repr

/-- The service an event is about. -/
def LifecycleEvent.name : LifecycleEvent → String
  | .started name _ | .stopped name | .failed name _ _ _ => name

/-! ## Restart policies -/

/-- How the supervision tree responds when a service's root task exits. -/
inductive RestartPolicy
  | oneShot
  | onFailure (maxAttempts : U32) (backoff : Backoff)
  | always (backoff : Backoff)

namespace RestartPolicy

/-- `matches!(policy, RestartPolicy::Always { .. })` -/
def isAlways : RestartPolicy → Bool
  | always _ => true
  | _ => false

/-- Whether the policy permits another restart given the current attempt
count. -/
def permitsRestartAfter (attempt : Nat) (wasFailure : Bool) : RestartPolicy → Bool
  | oneShot => false
  | onFailure maxAttempts _ => wasFailure && decide (attempt < maxAttempts.val)
  | always _ => true

/-- The delay after the exit of `attempt`, which counts from 1. -/
def backoffForAttempt (subsecNanos attempt : Nat) : RestartPolicy → Duration
  | oneShot => Duration.zero
  | onFailure _ backoff | always backoff => backoff.delayFor subsecNanos (attempt - 1)

end RestartPolicy

/-! ## The watcher -/

/-- The kernel's state that every task reads. -/
structure Kernel where
  /-- The monotonic clock, in nanoseconds. -/
  now : Nat
  /-- The value of the event bus's shutdown watch. -/
  shutdown : Bool
deriving DecidableEq, Repr

/-- What a `JoinHandle` resolves to. -/
inductive JoinResult
  | ok
  | panic (message : String)
  | cancelled
deriving DecidableEq, Repr

/-- The task behind the watcher's `handle`: a root task that `Service::start`
returned, or the placeholder spawned after a failed restart. -/
structure Handle where
  root : Bool
  /-- `none` while the task runs. -/
  result : Option JoinResult
deriving DecidableEq, Repr

/-- The await that `start_service`, and then its watcher, is at. -/
inductive Phase
  /-- `start_service` awaits `Service::start`. -/
  | starting
  /-- `start_service` returned the error of `Service::start`. -/
  | refused
  /-- The select on the handle and the shutdown signal. -/
  | watching
  /-- The select on the backoff, which ends at `wake`, and the signal. -/
  | backingOff (wake : Nat)
  /-- The watcher awaits `Service::start`. -/
  | restarting
  | returned
deriving DecidableEq, Repr

/-- What happened, in order; times are the kernel's. -/
inductive Entry
  /-- A call of `Service::start`. -/
  | called (attempt time : Nat)
  /-- What the call resolved to. -/
  | resolved (attempt : Nat) (result : Except String Unit)
  /-- The end of a root task. -/
  | exited (attempt : Nat) (result : JoinResult) (time : Nat)
  /-- The abort of a root task that had not ended. -/
  | aborted (attempt time : Nat)
  | published (event : LifecycleEvent)

/-- A service under supervision: its name and policy. -/
structure Supervised where
  name : String
  policy : RestartPolicy

structure Watcher where
  phase : Phase
  attempt : Nat
  handle : Handle
  history : List Entry

namespace Watcher

/-- `start_service` has called `Service::start`. -/
def init (k : Kernel) : Watcher where
  phase := .starting
  attempt := 1
  handle := ⟨true, none⟩
  history := [.called 1 k.now]

def log (w : Watcher) (e : Entry) : Watcher := { w with history := w.history ++ [e] }

def publish (w : Watcher) (e : LifecycleEvent) : Watcher := w.log (.published e)

def goto (w : Watcher) (p : Phase) : Watcher := { w with phase := p }

/-- After `Service::start` resolves in `start_service`. -/
def onFirstStart (svc : Supervised) (w : Watcher) : Except String Unit → Watcher
  | .ok () => { (w.log (.resolved w.attempt (.ok ()))).publish (.started svc.name 1) with phase := .watching }
  | .error e => (w.log (.resolved w.attempt (.error e))).goto .refused

/-- After `Service::start` resolves in the watcher. -/
def onRestart (svc : Supervised) (w : Watcher) : Except String Unit → Watcher
  | .ok () =>
    { (w.log (.resolved w.attempt (.ok ()))).publish (.started svc.name w.attempt) with
      phase := .watching
      handle := ⟨true, none⟩ }
  | .error e =>
    let willRetry := svc.policy.permitsRestartAfter w.attempt true
    let w := (w.log (.resolved w.attempt (.error e))).publish (.failed svc.name e w.attempt willRetry)
    if willRetry then { w with phase := .watching, handle := ⟨false, none⟩ } else w.goto .returned

/-- The wait for the backoff, if the policy permits a restart. -/
def backOff (svc : Supervised) (k : Kernel) (subsecNanos : Nat) (willRestart : Bool) (w : Watcher) : Watcher :=
  if willRestart then
    w.goto (.backingOff (k.now + (svc.policy.backoffForAttempt subsecNanos w.attempt).nanos))
  else w.goto .returned

/-- After the handle is joined. -/
def onJoin (svc : Supervised) (k : Kernel) (subsecNanos : Nat) (w : Watcher) : JoinResult → Watcher
  | .ok =>
    let w := w.publish (.stopped svc.name)
    if svc.policy.isAlways then
      w.backOff svc k subsecNanos (svc.policy.permitsRestartAfter w.attempt false)
    else w.goto .returned
  | .panic err =>
    let willRestart := svc.policy.permitsRestartAfter w.attempt true
    (w.publish (.failed svc.name ("service task panicked: " ++ err) w.attempt willRestart)).backOff
      svc k subsecNanos willRestart
  | .cancelled => w.goto .returned

/-- `handle.abort()`: a task that has ended is not affected. -/
def abort (k : Kernel) (w : Watcher) : Watcher :=
  if w.handle.root = true ∧ w.handle.result = none then
    { w.log (.aborted w.attempt k.now) with handle := ⟨true, some .cancelled⟩ }
  else w

/-- The end of the task behind the handle. -/
def onExit (k : Kernel) (w : Watcher) (r : JoinResult) : Watcher :=
  if w.handle.root then
    { w.log (.exited w.attempt r k.now) with handle := ⟨true, some r⟩ }
  else { w with handle := ⟨false, some r⟩ }

end Watcher

/-- What the tasks around a watcher do, and the branches it takes. -/
inductive WatcherAction
  /-- `Service::start` resolves. -/
  | started (result : Except String Unit)
  /-- The task behind the handle ends; only a root task can end otherwise
  than normally. -/
  | exits (result : JoinResult)
  /-- The branch `join_result = &mut handle`. -/
  | joined (subsecNanos : Nat)
  /-- The branch `() = tokio::time::sleep(delay)`. -/
  | slept
  /-- The branch `() = shutdown.wait()`. -/
  | shutdown

/-- One step of `start_service` and `supervise`. -/
def Watcher.step (svc : Supervised) (k : Kernel) (w : Watcher) : WatcherAction → Option Watcher
  | .started result =>
    match w.phase with
    | .starting => some (w.onFirstStart svc result)
    | .restarting => some (w.onRestart svc result)
    | _ => none
  | .exits result =>
    if w.phase = .watching ∧ w.handle.result = none ∧ (w.handle.root = true ∨ result = .ok) then
      some (w.onExit k result)
    else none
  | .joined subsecNanos =>
    match w.phase, w.handle.result with
    | .watching, some r => some (w.onJoin svc k subsecNanos r)
    | _, _ => none
  | .slept =>
    match w.phase with
    | .backingOff wake =>
      if wake ≤ k.now then
        let w := { w with attempt := saturatingAdd w.attempt 1 }
        some ((w.log (.called w.attempt k.now)).goto .restarting)
      else none
    | _ => none
  | .shutdown =>
    if k.shutdown then
      match w.phase with
      | .watching => some ((w.abort k).goto .returned)
      | .backingOff _ => some (w.goto .returned)
      | _ => none
    else none

/-- Whether a step is the watcher's own where the code of its root task is
modelled too: how that task ends is then decided there, and of the exits only
the placeholder's is left. -/
def Watcher.owns (w : Watcher) : WatcherAction → Bool
  | .exits _ => !w.handle.root
  | _ => true

/-! ## One watcher with its kernel -/

/-- The kernel and one service under supervision. -/
structure System where
  kernel : Kernel
  watcher : Watcher

inductive SystemAction
  /-- Time passes. -/
  | tick (d : Nat)
  /-- The kernel's shutdown signal is raised. -/
  | signal
  | watch (a : WatcherAction)

def System.init (k : Kernel) : System := ⟨k, .init k⟩

def System.step (svc : Supervised) (s : System) : SystemAction → Option System
  | .tick d => some { s with kernel := { s.kernel with now := s.kernel.now + d } }
  | .signal => some { s with kernel := { s.kernel with shutdown := true } }
  | .watch a => (s.watcher.step svc s.kernel a).map fun w => { s with watcher := w }

end WalaStack.Impl.Runtime
