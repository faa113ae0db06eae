import WalaStack.Impl.Jobs.Worker

/-!
# The lifecycle of a job

The events that the workers publish about one job, as a language: a job is
attempted with the numbers 1, 2, 3, .. until an attempt completes it or leaves
it dead. A run publishes a prefix of a word of the language, and what the
store keeps when a dispatch returns is what the last event announced.
-/

namespace WalaStack.Spec.Jobs

open WalaStack.Rust WalaStack.Impl.Jobs

/-- An event of a worker, without the job that it is about. -/
inductive Stage
  | started (attempt : Nat)
  | completed (attempt : Nat)
  | failed (attempt : Nat)
  | retrying (nextAttempt : Nat) (nextAttemptAt : DateTime)
  | dead (totalAttempts : Nat)

/-- The stage of the job `id` that an event announces. -/
def stageOf (id : JobId) : JobEvent → Option Stage
  | .enqueued _ _ _ _ => none
  | .started id' _ attempt => if id' = id then some (.started attempt.val) else none
  | .completed id' _ attempt _ => if id' = id then some (.completed attempt.val) else none
  | .failed id' _ attempt _ => if id' = id then some (.failed attempt.val) else none
  | .retrying id' _ nextAttempt at_ => if id' = id then some (.retrying nextAttempt.val at_) else none
  | .dead id' _ totalAttempts => if id' = id then some (.dead totalAttempts.val) else none

/-- The worker events about the job `id`, in order. -/
def trace (id : JobId) (events : List JobEvent) : List Stage := events.filterMap (stageOf id)

/-- The lives of a job from its attempt `a` on: with a handler an attempt
completes the job, or fails and is retried while `a < max`, or leaves it dead
from then on; without one it leaves it dead at once. -/
inductive Lifecycle (handled : Prop) (max : Nat) : Nat → List Stage → Prop
  | completed {a : Nat} : handled → Lifecycle handled max a [.started a, .completed a]
  | exhausted {a : Nat} : handled → max ≤ a → Lifecycle handled max a [.started a, .failed a, .dead a]
  | unhandled {a : Nat} : ¬ handled → Lifecycle handled max a [.failed a, .dead a]
  | retried {a : Nat} {at_ : DateTime} {es : List Stage} : handled → a < max → Lifecycle handled max (a + 1) es →
    Lifecycle handled max a (.started a :: .failed a :: .retrying (a + 1) at_ :: es)

/-- There is a handler for the job. -/
def Handled (dispatcher : JobsDispatcher) (r : JobRecord) : Prop := (dispatcher r.name).isSome = true

/-- What a stage says of the stored record. -/
def Announces : Stage → JobRecord → Prop
  | .completed _, r => r.status = .completed
  | .dead _, r => r.status = .dead
  | .retrying _ at_, r => r.status = .retrying ∧ r.scheduledAt = at_
  | .started _, _ | .failed _, _ => False

end WalaStack.Spec.Jobs
