import WalaStack.Framework.Transition
import WalaStack.Impl.Runtime.Runtime
import WalaStack.Spec.Supervision

/-!
# Quiescence

After `RuntimeStopped` nothing that the kernel owns should run on. `Quiescent`
says so of all that may follow a state, short of new services and schedules;
`Quiesced` are the states in which there is nothing left to run.
-/

namespace WalaStack.Spec.Runtime

open WalaStack.Rust WalaStack.Impl.Runtime WalaStack.Transition WalaStack.Spec.Supervision

/-- A root task takes a step, or a schedule fires or runs an attempt. -/
def isActivity : RuntimeEntry → Bool
  | .worked _ | .fired _ | .attempted _ => true
  | .stopping | .stopped => false

/-- No activity comes after `RuntimeStopped`. -/
def QuietAfterStop (h : List RuntimeEntry) : Prop :=
  ∀ pre post, h = pre ++ .stopped :: post → ∀ e ∈ post, isActivity e = false

/-- A service is started, or a schedule registered. -/
def registers : RuntimeAction → Bool
  | .tree (.startService _) | .register _ _ => true
  | _ => false

/-- Once `RuntimeStopped` has been published, there is no activity after it,
however the run goes on. -/
def Quiescent (r : Runtime) : Prop :=
  .stopped ∈ r.log → ∀ as r', (∀ a ∈ as, registers a = false) → exec Runtime.step r as = some r' →
    QuietAfterStop r'.log

/-- The watcher starts no further root task: it has ended, or the policy does
not restart what it watches. The exit of a placeholder is a clean one. -/
def Final (svc : Supervised) (w : Watcher) : Prop :=
  match w.phase with
  | .starting | .restarting | .backingOff _ => False
  | .refused | .returned => True
  | .watching => restartsAfter svc.policy w.attempt (w.handle.result.getD .ok) = false

/-- No root task of the service runs, and none can be started. -/
structure ChildSpent (c : Child) : Prop where
  idle : c.rootRuns = false
  final : c.cancelled = true ∨ Final c.svc c.watcher

/-- The schedule's task has ended, or it is cancelled with no attempt running. -/
def ScheduleSpent (s : Schedule) : Prop :=
  match s.phase with
  | .returned => True
  | .calling _ _ _ => False
  | .waiting _ | .backingOff _ _ _ => s.cancelled = true

/-- There is nothing left to run. -/
structure Quiesced (r : Runtime) : Prop where
  children : ∀ i c, r.tree.calls i = some c → ChildSpent c
  schedules : ∀ e ∈ r.schedules, ScheduleSpent e.2

/-- `RuntimeStopped` is published when there is nothing left to run, and no
service is started and no schedule registered after it. -/
def StopsQuiesced (r : Runtime) (a : RuntimeAction) : Prop :=
  (a = .stopped → Quiesced r) ∧ (registers a = true → .stopped ∉ r.log)

/-- The runtime has been built. -/
def Built (r : Runtime) : Prop := ∃ k wall deadline, r = .new k wall deadline

end WalaStack.Spec.Runtime
