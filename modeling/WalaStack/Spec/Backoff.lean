import WalaStack.Impl.Jobs.Worker
import WalaStack.Impl.Runtime.Scheduler

/-!
# The wait before a retry

Three loops retry with a `Backoff`, each with its own count of attempts: the
scheduler's `run_attempts`, the watcher of a service, and `dispatch_one` of
the jobs workers. `SchedulerWaits`, `WatcherWaits` and `WorkerWaits` say how
long each of them waits after attempt `k` has failed; `linearWait` is the
wait that `Backoff::Linear` documents. `RetrySafe` is about the time of a
job's retry, for which the delay has to fit the ranges of `chrono`.
`documentedDelay` is the delay that `Backoff::Exponential` documents.
-/

namespace WalaStack.Spec.Backoff

open WalaStack.Rust WalaStack.Impl.Runtime WalaStack.Impl.Jobs

/-- `base` before the first retry, and `step` more before each one after. -/
def linearWait (base step : Duration) (k : Nat) : Nat :=
  min (base.nanos + step.nanos * (k - 1)) Duration.max.nanos

/-- An attempt of a scheduled task that failed. -/
def Failed (cfg : Scheduled) : TaskOutcome → Prop
  | .returned (.error _) => True
  | .timedOut => ∃ d, cfg.policies.timeout = some d
  | _ => False

/-- `run_attempts` waits `d` ns after attempt `k` has failed, and so it
announces. -/
def SchedulerWaits (backoff : Backoff) (k d : Nat) : Prop :=
  ∀ (cfg : Scheduled) (maxAttempts : U32) (clock : Clock) (s s' : Schedule) (firedAt startedAt ns : Nat)
    (outcome : TaskOutcome), cfg.policies.retry = some ⟨maxAttempts, backoff⟩ → k < maxAttempts.val →
    s.phase = .calling k firedAt startedAt → Failed cfg outcome →
    s.step cfg clock (.resolved outcome ns) = some s' →
    s'.phase = .backingOff k firedAt (clock.now + d) ∧
      ∃ delay : Duration, delay.nanos = d ∧ s' = (s.publish cfg (.retrying cfg.id (k + 1) delay)).goto s'.phase

/-- The backoff of a policy that restarts. -/
def backoffOf : RestartPolicy → Option Backoff
  | .oneShot => none
  | .onFailure _ backoff | .always backoff => some backoff

/-- The watcher waits `d` ns after attempt `k` has ended. -/
def WatcherWaits (backoff : Backoff) (k d : Nat) : Prop :=
  ∀ (svc : Supervised) (kernel : Kernel) (w : Watcher) (ns : Nat) (r : JoinResult),
    backoffOf svc.policy = some backoff → w.attempt = k → w.phase = .watching → w.handle.result = some r →
    r ≠ .cancelled → svc.policy.permitsRestartAfter k (decide (r ≠ .ok)) = true →
    ∃ w', w.step svc kernel (.joined ns) = some w' ∧ w'.phase = .backingOff (kernel.now + d)

/-- `dispatch_one` has the store wait `d` ns from `now` after attempt `k` of a
job has failed. -/
def WorkerWaits (backoff : Backoff) (k : Nat) (now : DateTime) (d : Nat) : Prop :=
  ∀ (config : JobsConfig) (entry : HandlerEntry) (elapsed ns : Nat) (r : JobRecord) (error : String),
    entry.metadata.backoff.getD config.defaultBackoff = backoff → r.attempt.val = k → k < r.maxAttempts.val →
    ∃ es at_, conclude config entry elapsed now ns r (.error error) = (es, .ok (.failed error (some at_))) ∧
      at_.nanos = now.nanos + d

/-- The three loops agree on the wait. -/
def Agree (backoff : Backoff) (k : Nat) (now : DateTime) (d : Nat) : Prop :=
  SchedulerWaits backoff k d ∧ WatcherWaits backoff k d ∧ WorkerWaits backoff k now d

/-! ## The time of a retry -/

/-- The delay of `Backoff::Linear` for an attempt, saturated. -/
def linearDelay (base step : Duration) (k : Nat) : Nat := min (base.nanos + step.nanos * k) Duration.max.nanos

/-- The longest delay from `now` on that `chrono` represents. -/
def longestDelay (now : DateTime) : Nat := min maxDeltaNanos (maxUtcNanos - now.nanos).toNat

/-- After the attempt of `r` has failed, `dispatch_one` has the store retry the
job at `at_`. -/
def RetriesAt (config : JobsConfig) (entry : HandlerEntry) (now : DateTime) (r : JobRecord) (at_ : DateTime) : Prop :=
  ∀ (elapsed ns : Nat) (error : String),
    (conclude config entry elapsed now ns r (.error error)).2 = .ok (.failed error (some at_))

/-- There is a time of the retry, after the delay or as late as `chrono` can
tell, and the same job's retry after an earlier attempt would not be later. -/
def RetrySafe (config : JobsConfig) (entry : HandlerEntry) (base step : Duration) (now : DateTime)
    (r : JobRecord) : Prop :=
  ∃ at_, RetriesAt config entry now r at_ ∧
    now.nanos + min (linearDelay base step r.attempt.val) (longestDelay now) ≤ at_.nanos ∧
    ∀ (m : U32) (earlier : DateTime), m.val ≤ r.attempt.val →
      RetriesAt config entry now { r with attempt := m } earlier → earlier ≤ at_

/-! ## The exponential delay -/

/-- `min(base * factor^retry_index, max)`, in whole nanoseconds. -/
def documentedDelay (base : Duration) (factor : Rat) (max : Duration) (i : Nat) : Nat :=
  min ⌊base.nanos * factor ^ i⌋₊ max.nanos

/-- The delay of a retry is the documented one, at most `max` and at least that
of each earlier retry. -/
structure FollowsFormula (base : Duration) (factor : Rat) (max : Duration) (i : U32) : Prop where
  formula : ∀ ns, ((Backoff.exponential base factor max).delayFor ns i.val).nanos = documentedDelay base factor max i.val
  capped : ∀ ns, ((Backoff.exponential base factor max).delayFor ns i.val).nanos ≤ max.nanos
  monotone : ∀ ns ns' (j : U32), j.val ≤ i.val → ((Backoff.exponential base factor max).delayFor ns' j.val).nanos ≤
    ((Backoff.exponential base factor max).delayFor ns i.val).nanos

end WalaStack.Spec.Backoff
