import WalaStack.Framework.Transition
import WalaStack.Impl.Runtime.Scheduler

/-!
# The fires of a schedule

`fireTrace` is what a fire publishes and calls, given how each of its attempts
ends: the first success, or the last attempt of the policy, is the last one.
`TracesFires` is that a history is such traces one after another, the last of
them cut short where the schedule is at work or cancelled, and that a schedule
goes on with the last: from the wait to the first attempt, from an attempt to
the backoff or to the end of the fire, from the backoff to the next attempt.
-/

namespace WalaStack.Spec.Scheduler

open WalaStack.Rust WalaStack.Impl.Runtime WalaStack.Transition

/-! ## The trace of a fire -/

/-- How an attempt ends, and the subsecond nanoseconds of its end. -/
structure Attempt where
  result : Except String Unit
  subsecNanos : Nat

def Attempt.succeeds (a : Attempt) : Bool :=
  match a.result with
  | .ok _ => true
  | .error _ => false

section

variable (cfg : Scheduled) (o : Nat → Attempt)

/-- The attempts that a fire makes: up to the first success, and at most
`max_attempts`. -/
def attemptCount : Nat :=
  ((List.range' 1 cfg.policies.maxAttempts).find? fun j => (o j).succeeds).getD cfg.policies.maxAttempts

/-- Attempt `j`, and the announcement of the next. -/
def attemptTrace (j : Nat) : List TaskEntry :=
  .called j 0 ::
    if (o j).succeeds = false ∧ j < cfg.policies.maxAttempts then
      [.published (.retrying cfg.id (j + 1) (cfg.policies.retryDelay (o j).subsecNanos j))]
    else []

/-- The `n`th fire up to the end of the backoff after attempt `k`. -/
def opening (n k : Nat) : List TaskEntry :=
  .published (.fired cfg.id (min n u32Max)) :: (List.range' 1 k).flatMap (attemptTrace cfg o)

/-- How the fire ends after `m` attempts. -/
def fireEnd (m : Nat) : TaskEntry :=
  match (o m).result with
  | .ok _ => .published (.completed cfg.id 0)
  | .error e => .published (.failed cfg.id e m)

/-- The `n`th fire. -/
def fireTrace (n : Nat) : List TaskEntry :=
  .published (.fired cfg.id (min n u32Max)) ::
    ((List.range' 1 (attemptCount cfg o)).flatMap (attemptTrace cfg o) ++ [fireEnd cfg o (attemptCount cfg o)])

end

/-- The first `n` fires; `env` says how their attempts end. -/
def fireTraces (cfg : Scheduled) (env : Nat → Nat → Attempt) : Nat → List TaskEntry
  | 0 => []
  | n + 1 => fireTraces cfg env n ++ fireTrace cfg (env (n + 1)) (n + 1)

/-- Without an event bus, nothing is published. -/
def heard (cfg : Scheduled) : TaskEntry → Bool
  | .called _ _ => true
  | .published _ => cfg.wired

/-- An entry without its times. -/
def untimed : TaskEntry → TaskEntry
  | .called attempt _ => .called attempt 0
  | .published (.completed id _) => .published (.completed id 0)
  | e => e

/-! ## Runs -/

/-- A schedule, with the number of its fires. -/
structure Firing where
  schedule : Schedule
  fires : Nat
deriving DecidableEq

/-- A step, with the clocks that it reads. -/
inductive FiringAction
  | task (clock : Clock) (a : ScheduleAction)
  /-- A fire, and a cancellation in the midst of it. -/
  | interrupted (clock : Clock)

/-- The wait is over, and the schedule fires. -/
def starts (s : Schedule) : ScheduleAction → Bool
  | .slept =>
    match s.phase with
    | .waiting _ => !s.cancelled
    | _ => false
  | _ => false

namespace Firing

def init (cfg : Scheduled) (clock : Clock) : Firing := ⟨.init cfg clock, 0⟩

def step (cfg : Scheduled) (s : Firing) : FiringAction → Option Firing
  | .task clock a =>
    (s.schedule.step cfg clock a).map fun s' => ⟨s', s.fires + if starts s.schedule a then 1 else 0⟩
  | .interrupted clock => (s.schedule.interrupt cfg clock).map fun s' => ⟨s', s.fires + 1⟩

end Firing

/-- The result of an attempt. -/
def resultOf (policies : Policies) : TaskOutcome → Option (Except String Unit)
  | .returned result => some result
  | .timedOut => policies.timeout.map fun d => .error ("task timed out after " ++ toString d.asMillis ++ "ms")
  | .panicked => none

/-- The attempts end as `env` says. -/
def Answers (cfg : Scheduled) (env : Nat → Nat → Attempt) (s : Firing) : FiringAction → Prop
  | .task _ (.resolved outcome subsecNanos) => ∀ attempt firedAt startedAt,
      s.schedule.phase = .calling attempt firedAt startedAt →
      resultOf cfg.policies outcome = some (env s.fires attempt).result ∧
        subsecNanos = (env s.fires attempt).subsecNanos
  | _ => True

/-- A fire is announced, or the function is called. -/
def begins : TaskEntry → Bool
  | .called _ _ | .published (.fired _ _) => true
  | _ => false

/-- A step of a schedule, with the clocks that it reads. -/
def timedStep (cfg : Scheduled) (s : Schedule) (a : Clock × ScheduleAction) : Option Schedule :=
  s.step cfg a.1 a.2

/-- However the schedule goes on, it begins nothing. -/
def BeginsNothing (cfg : Scheduled) (s : Schedule) : Prop :=
  ∀ as s', exec (timedStep cfg) s as = some s' →
    ∃ es, s'.history = s.history ++ es ∧ ∀ e ∈ es, begins e = false

end WalaStack.Spec.Scheduler
