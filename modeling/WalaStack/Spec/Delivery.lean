import WalaStack.Impl.Jobs.Worker
import WalaStack.Spec.JobStore

/-!
# At-least-once delivery

`Delivered`: every job that is `Running` is in the hands of a live worker, so
that none is left where `pull_next` cannot hand it out again. `Spares` is
what a step of the pool has to meet for that: the ways out of `dispatch_one`
and of `pull_next` that it leaves out are those after which nobody puts the
job back.
-/

namespace WalaStack.Spec.Jobs

open WalaStack.Rust WalaStack.Impl.Runtime WalaStack.Impl.Jobs

/-- The worker's root task is alive, and in `dispatch_one`. -/
def Executes (w : WorkerState) : Prop :=
  w.watcher.handle = ⟨true, none⟩ ∧
    ((∃ entry startedAt, w.task = some (.running entry startedAt)) ∨ ∃ m, w.task = some (.marking m))

/-- Each job that is `Running` is executed by a worker that holds its record. -/
def Delivered (P : Provider) (s : Pool P.toJobStore) : Prop :=
  ∀ id v, P.view s.desk.store id = some v → v.status = .running →
    ∃ i r, s.desk.held i = some r ∧ r.id = id ∧ Executes (s.workers i)

/-- The time of a retry after `delay` is one that `chrono` represents. -/
def Fits (now : DateTime) (delay : Duration) : Prop :=
  now.nanos + ((TimeDelta.fromStd delay).getD TimeDelta.oneSecond).nanos ≤ maxUtcNanos

instance (now : DateTime) (delay : Duration) : Decidable (Fits now delay) := inferInstanceAs (Decidable (_ ≤ _))

/-- The handler of a record returns or times out, and the time of the retry,
if one is left, can be represented. -/
def Settles (config : JobsConfig) (entry : HandlerEntry) (now : DateTime) (subsecNanos : Nat) (r : JobRecord) :
    Outcome → Prop
  | .returned (.ok ()) => True
  | .returned (.error _) | .timedOut =>
    r.attempt.val < r.maxAttempts.val → Fits now (retryDelay config entry subsecNanos r)
  | .panicked _ => False

/-- The step is not one that leaves a job `Running` behind. -/
def Spares (P : Provider) (config : JobsConfig) (s : Pool P.toJobStore) : PoolAction P.Env → Prop
  | .pull _ now env => P.refuses env ∨ ¬ P.loses config.queues now s.desk.store
  | .finish i outcome now subsecNanos =>
    ∀ entry startedAt r, (s.workers i).task = some (.running entry startedAt) → s.desk.held i = some r →
      Settles config entry now subsecNanos r outcome
  | .mark _ env => ¬ P.refuses env
  | _ => True

end WalaStack.Spec.Jobs
