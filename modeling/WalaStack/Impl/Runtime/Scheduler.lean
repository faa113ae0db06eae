import WalaStack.Impl.Runtime.Backoff
import WalaStack.Rust.Chrono

/-!
# Scheduled tasks

`walastack-runtime/src/scheduler.rs`: triggers, policies, and the task that
`Scheduler::schedule` spawns, `run_schedule` with `run_attempts`, as a
transition system. A step is what the task does between two awaits; the
actions say how the scheduled function's future ends (`resolved`) and which
ready branch a `tokio::select!` takes.

Which occurrences a cron expression has is the `cron` crate's: a
`CronSchedule` gives the first of them after an instant.
-/

namespace WalaStack.Impl.Runtime

open WalaStack.Rust

/-! ## Triggers -/

/-- A validated cron schedule, by the first item of its `upcoming(Utc)`. -/
structure CronSchedule where
  upcoming : DateTime → Option DateTime

/-- When and how often a scheduled task fires. -/
inductive Trigger
  | after (d : Duration)
  | at_ (t : SystemTime)
  | fixedRate (period : Duration)
  | fixedDelay (d : Duration)
  | cron (schedule : CronSchedule)

/-- `matches!(self, Self::After(_) | Self::At(_))` -/
def Trigger.isOneShot : Trigger → Bool
  | after _ | at_ _ => true
  | _ => false

/-- The clocks that a task reads. -/
structure Clock where
  /-- `Instant::now()`, in nanoseconds. -/
  now : Nat
  /-- `SystemTime::now()` and `Utc::now()`. -/
  wall : DateTime

/-- Time until the next scheduled fire. -/
def CronSchedule.nextDelay (schedule : CronSchedule) (clock : Clock) : Duration :=
  match schedule.upcoming clock.wall with
  | some next => (next.since clock.wall).getD Duration.zero
  | none => Duration.zero

def nextDelay (clock : Clock) (lastFire : Option Nat) : Trigger → Duration
  | .after d | .fixedDelay d => d
  | .at_ t => (t.durationSince clock.wall.toSystemTime).getD Duration.zero
  | .fixedRate period =>
    match lastFire with
    | none => period
    | some last => (period.checkedSub (clock.now - last)).getD Duration.zero
  | .cron schedule => schedule.nextDelay clock

/-! ## Policies -/

/-- Retry policy for a scheduled task: the total attempts including the first. -/
structure RetryPolicy where
  maxAttempts : U32
  backoff : Backoff

/-- Policies applied to each fire of a scheduled task. -/
structure Policies where
  timeout : Option Duration
  retry : Option RetryPolicy

namespace Policies

/-- `policies.retry.as_ref().map_or(1, |r| r.max_attempts.max(1))` -/
def maxAttempts (policies : Policies) : Nat :=
  match policies.retry with
  | none => 1
  | some r => max r.maxAttempts.val 1

/-- The delay after `attempt`, whose retry index is `attempt - 1`. -/
def retryDelay (policies : Policies) (subsecNanos attempt : Nat) : Duration :=
  match policies.retry with
  | none => Duration.zero
  | some r => r.backoff.delayFor subsecNanos (attempt - 1)

end Policies

/-! ## The task of a schedule -/

inductive TaskEvent
  /-- `TaskFired` -/
  | fired (scheduleId : Nat) (triggerCount : Nat)
  /-- `TaskCompleted`, with its duration in nanoseconds. -/
  | completed (scheduleId : Nat) (duration : Nat)
  /-- `TaskFailed` -/
  | failed (scheduleId : Nat) (error : String) (totalAttempts : Nat)
  /-- `TaskRetrying` -/
  | retrying (scheduleId : Nat) (nextAttempt : Nat) (delay : Duration)
deriving DecidableEq, Repr

/-- What `Scheduler::schedule` hands to the task; the function itself is an
action. -/
structure Scheduled where
  id : Nat
  trigger : Trigger
  policies : Policies
  /-- The scheduler was made with an event bus. -/
  wired : Bool

/-- The await that the task is at. -/
inductive SchedulePhase
  /-- The select of `run_schedule` on the delay, which ends at `wake`, and
  the cancellation. -/
  | waiting (wake : Nat)
  /-- `run_attempts` awaits the function's future, under its timeout. -/
  | calling (attempt firedAt startedAt : Nat)
  /-- The select of `run_attempts` on the backoff after `attempt`. -/
  | backingOff (attempt firedAt wake : Nat)
  | returned
deriving DecidableEq, Repr

/-- What happened, in order; times are the monotonic clock's. -/
inductive TaskEntry
  /-- A call of the scheduled function. -/
  | called (attempt time : Nat)
  | published (event : TaskEvent)
deriving DecidableEq, Repr

/-- How the function's future ends. -/
inductive TaskOutcome
  | returned (result : Except String Unit)
  /-- The elapse of the timeout. -/
  | timedOut
  | panicked
deriving Repr

inductive ScheduleAction
  /-- The branch `() = tokio::time::sleep(delay)`, of either select. -/
  | slept
  /-- The branch `_ = cancel.changed()`, of either select. -/
  | changed
  /-- The function's future ends. -/
  | resolved (outcome : TaskOutcome) (subsecNanos : Nat)
  /-- `ScheduleHandle::cancel` -/
  | cancel
  /-- `Scheduler::shutdown` -/
  | shutdown

structure Schedule where
  phase : SchedulePhase
  triggerCount : Nat
  lastFire : Option Nat
  /-- The value of the watch channel. -/
  cancelled : Bool
  /-- The receiver has not seen the channel's last change. -/
  unseen : Bool
  history : List TaskEntry
deriving DecidableEq, Repr

namespace Schedule

variable (cfg : Scheduled) (clock : Clock)

/-- `run_schedule` up to its first await. -/
def init : Schedule where
  phase := .waiting (clock.now + (nextDelay clock none cfg.trigger).nanos)
  triggerCount := 0
  lastFire := none
  cancelled := false
  unseen := false
  history := []

def log (s : Schedule) (e : TaskEntry) : Schedule := { s with history := s.history ++ [e] }

def publish (s : Schedule) (e : TaskEvent) : Schedule := if cfg.wired then s.log (.published e) else s

def goto (s : Schedule) (p : SchedulePhase) : Schedule := { s with phase := p }

/-- `run_schedule` after `run_attempts` returns. -/
def afterFire (s : Schedule) : Schedule :=
  if cfg.trigger.isOneShot then s.goto .returned
  else s.goto (.waiting (clock.now + (nextDelay clock s.lastFire cfg.trigger).nanos))

/-- The head of the loop of `run_attempts`. -/
def beginAttempt (attempt firedAt : Nat) (s : Schedule) : Schedule :=
  if s.cancelled then s.afterFire cfg clock
  else (s.log (.called attempt clock.now)).goto (.calling attempt firedAt clock.now)

/-- `run_schedule` after its select. -/
def fire (s : Schedule) : Schedule :=
  if s.cancelled then s.goto .returned
  else
    let s := { s with triggerCount := saturatingAdd s.triggerCount 1, lastFire := some clock.now }
    (s.publish cfg (.fired cfg.id s.triggerCount)).beginAttempt cfg clock 1 clock.now

/-- `run_attempts` after an attempt. -/
def onResult (attempt firedAt subsecNanos : Nat) (s : Schedule) : Except String Unit → Schedule
  | .ok () => (s.publish cfg (.completed cfg.id (clock.now - firedAt))).afterFire cfg clock
  | .error err =>
    if attempt < cfg.policies.maxAttempts then
      let delay := cfg.policies.retryDelay subsecNanos attempt
      (s.publish cfg (.retrying cfg.id (attempt + 1) delay)).goto
        (.backingOff attempt firedAt (clock.now + delay.nanos))
    else (s.publish cfg (.failed cfg.id err cfg.policies.maxAttempts)).afterFire cfg clock

/-- One step of the task, or of those who cancel it. -/
def step (s : Schedule) : ScheduleAction → Option Schedule
  | .slept =>
    match s.phase with
    | .waiting wake => if wake ≤ clock.now then some (s.fire cfg clock) else none
    | .backingOff attempt firedAt wake =>
      if wake ≤ clock.now then some (s.beginAttempt cfg clock (attempt + 1) firedAt) else none
    | _ => none
  | .changed =>
    if s.unseen then
      match s.phase with
      | .waiting _ => some ({ s with unseen := false }.goto .returned)
      | .backingOff _ _ _ => some ({ s with unseen := false }.afterFire cfg clock)
      | _ => none
    else none
  | .resolved outcome subsecNanos =>
    match s.phase with
    | .calling attempt firedAt startedAt =>
      match outcome with
      | .returned result => some (s.onResult cfg clock attempt firedAt subsecNanos result)
      | .timedOut =>
        match cfg.policies.timeout with
        | some d =>
          if startedAt + d.nanos ≤ clock.now then
            some (s.onResult cfg clock attempt firedAt subsecNanos
              (.error ("task timed out after " ++ toString d.asMillis ++ "ms")))
          else none
        | none => none
      | .panicked => some (s.goto .returned)
    | _ => none
  | .cancel => some { s with cancelled := true, unseen := true }
  | .shutdown => some { s with cancelled := true, unseen := true, phase := .returned }

/-- `fire`, where a cancellation comes between the two reads of the channel: of
`run_schedule`, and of `run_attempts`. Anywhere else in a step, it is the same
as one before or after the step. -/
def fireInterrupted (s : Schedule) : Schedule :=
  let s := { s with triggerCount := saturatingAdd s.triggerCount 1, lastFire := some clock.now }
  { s.publish cfg (.fired cfg.id s.triggerCount) with cancelled := true, unseen := true }.beginAttempt cfg clock 1
    clock.now

/-- The step of such a fire. -/
def interrupt (s : Schedule) : Option Schedule :=
  match s.phase with
  | .waiting wake => if wake ≤ clock.now ∧ s.cancelled = false then some (s.fireInterrupted cfg clock) else none
  | _ => none

end Schedule

end WalaStack.Impl.Runtime
