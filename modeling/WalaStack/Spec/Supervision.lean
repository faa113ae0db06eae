import WalaStack.Impl.Runtime.Supervision

/-!
# What supervision promises

The promises of the supervision watcher, on the history of a watcher and on
what its service does.

* `Script`: how each `Service::start` of a service resolves and how each of
  its root tasks ends; `Script.allows` are the steps in which it does so.
* `Kept`: every `ServiceFailed` with `will_restart` is followed by the call
  for the next attempt.
* `Script.spares`: the service's restarts never fail while the policy still
  counts on another one.
* `StopsTruly`: every `ServiceStopped` is the clean exit of the root task of
  the last attempt; `Script.failsRetried` are the services of which it is not.
* `NoEarlyAbort`, `Settled`: no root task is aborted before the drain
  deadline, and the states in which the signal finds nothing to abort.
-/

namespace WalaStack.Spec.Supervision

open WalaStack.Rust WalaStack.Impl.Runtime WalaStack.Transition

/-! ## The service -/

/-- What a service does, by the number of its `Service::start` call: how the
call resolves, and how the root task it returned ends (`none`: never). -/
structure Script where
  starts : Nat → Except String Unit
  exits : Nat → Option JoinResult

/-- The number of calls of `Service::start`. -/
def calls (h : List Entry) : Nat :=
  (h.filter fun e => e matches .called _ _).length

/-- The service does what the script says. -/
def Script.allows (sc : Script) (s : System) : SystemAction → Prop
  | .watch (.started r) => r = sc.starts (calls s.watcher.history)
  | .watch (.exits r) => s.watcher.handle.root = true → sc.exits (calls s.watcher.history) = some r
  | _ => True

/-- The kernel has not been shut down when a service is started. -/
def Initial (s : System) : Prop := ∃ now, s = System.init ⟨now, false⟩

/-- The states a service's watcher can be in. -/
abbrev Reachable (svc : Supervised) (sc : Script) : System → Prop :=
  Reach (System.step svc) Initial sc.allows

/-! ## Restarts -/

/-- Every `ServiceFailed` with `will_restart = true` is followed by the call
of `Service::start` for the next attempt. -/
def Kept (h : List Entry) : Prop :=
  ∀ pre post name err k, h = pre ++ .published (.failed name err k true) :: post →
    ∃ t, .called (saturatingAdd k 1) t ∈ post

/-- A watcher that ended without shutdown owes no restart. -/
def RestartPromise (s : System) : Prop :=
  s.watcher.phase = .returned → s.kernel.shutdown = false → Kept s.watcher.history

/-- Attempts before the `k`th all started, and their root tasks panicked. -/
def Script.panicsBefore (sc : Script) (k : Nat) : Prop :=
  ∀ j, 1 ≤ j → j < k → sc.starts j = .ok () ∧ ∃ err, sc.exits j = some (.panic err)

/-- Some restart, before the last one the budget allows, fails to start. -/
def Script.failsRestart (sc : Script) (maxAttempts : Nat) : Prop :=
  ∃ k, 2 ≤ k ∧ k < maxAttempts ∧ sc.panicsBefore k ∧ ∃ e, sc.starts k = .error e

/-- Under `OnFailure`, no restart of the service fails while attempts remain. -/
def Script.spares (sc : Script) : RestartPolicy → Prop
  | .onFailure maxAttempts _ => ¬ sc.failsRestart maxAttempts.val
  | _ => True

/-! ## Clean exits -/

/-- The call for another attempt, or an exit event. -/
def endsAttempt : Entry → Bool
  | .called _ _ | .published (.stopped _) | .published (.failed _ _ _ _) => true
  | _ => false

/-- Every `ServiceStopped` comes after the `ServiceStarted` of its attempt and
the clean exit of that attempt's root task, with no other exit event and no
further attempt since. -/
def StopsTruly (h : List Entry) : Prop :=
  ∀ pre post name, h = pre ++ .published (.stopped name) :: post →
    ∃ pre' mid k t, pre = pre' ++ .published (.started name k) :: mid ∧ .exited k .ok t ∈ mid ∧
      ∀ e ∈ mid, endsAttempt e = false

/-- Whether the policy restarts a root task that ended so, in attempt `k`. -/
def restartsAfter (p : RestartPolicy) (k : Nat) : JoinResult → Bool
  | .ok => p.isAlways
  | .panic _ => p.permitsRestartAfter k true
  | .cancelled => false

/-- Attempts before the `k`th all started, and the policy restarts their root
tasks. -/
def Script.restartedBefore (sc : Script) (p : RestartPolicy) (k : Nat) : Prop :=
  ∀ j, 1 ≤ j → j < k → sc.starts j = .ok () ∧ ∃ r, sc.exits j = some r ∧ restartsAfter p j r = true

/-- Some restart that the policy makes fails to start, and the policy permits
another one. -/
def Script.failsRetried (sc : Script) (p : RestartPolicy) : Prop :=
  ∃ k, 2 ≤ k ∧ sc.restartedBefore p k ∧ p.permitsRestartAfter k true = true ∧ ∃ e, sc.starts k = .error e

/-! ## Outcomes and events -/

/-- Whether an entry is the failure or the success of a start, or of a root
task. -/
def failure? : Entry → Option Bool
  | .resolved _ (.error _) => some true
  | .resolved _ (.ok ()) => some false
  | .exited _ (.panic _) _ => some true
  | .exited _ _ _ => some false
  | _ => none

/-- Which of the outcomes were failures, in order. -/
def failures (h : List Entry) : List Bool := h.filterMap failure?

/-- The last start attempt failed, or the last root task panicked. -/
def FailedLast (h : List Entry) : Prop := (failures h).getLast? = some true

def event? : Entry → Option LifecycleEvent
  | .published e => some e
  | _ => none

/-- The lifecycle events, in publish order. -/
def events (h : List Entry) : List LifecycleEvent := h.filterMap event?

/-! ## Shutdown -/

/-- The state in which the shutdown signal is raised. -/
def signalled (s : System) : System := { s with kernel := { s.kernel with shutdown := true } }

/-- Whatever happens after `s`, no root task that is still running is aborted
before `deadline`. -/
def NoEarlyAbort (svc : Supervised) (deadline : Nat) (s : System) : Prop :=
  ∀ as s', exec (System.step svc) s as = some s' →
    ∀ k t, .aborted k t ∈ s'.watcher.history → deadline ≤ t

/-- The restart that the policy makes of a root task that ended at `now`, if
any, is not before `deadline`. -/
def RestartsAfter (svc : Supervised) (attempt now deadline : Nat) : JoinResult → Prop
  | .ok => svc.policy.isAlways = true →
      ∀ ns, deadline ≤ now + (svc.policy.backoffForAttempt ns attempt).nanos
  | .panic _ => svc.policy.permitsRestartAfter attempt true = true →
      ∀ ns, deadline ≤ now + (svc.policy.backoffForAttempt ns attempt).nanos
  | .cancelled => True

/-- The watcher has no running root task, and cannot have one before
`deadline`. -/
def Settled (svc : Supervised) (deadline : Nat) (s : System) : Prop :=
  match s.watcher.phase with
  | .starting | .restarting => False
  | .refused | .returned => True
  | .backingOff wake => deadline ≤ wake
  | .watching =>
    match s.watcher.handle.result with
    | some r => RestartsAfter svc s.watcher.attempt s.kernel.now deadline r
    | none => s.watcher.handle.root = false ∧
        RestartsAfter svc s.watcher.attempt s.kernel.now deadline .ok

end WalaStack.Spec.Supervision
