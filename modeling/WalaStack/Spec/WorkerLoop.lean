import WalaStack.Framework.Log
import WalaStack.Impl.Jobs.WorkerLoop
import WalaStack.Spec.JobStore

/-!
# No pulled job is dropped

`Kept`: each job that a pull of the worker moved to `Running` has been passed
to `dispatch_one` since, or is in the future that the worker's select is
about to return. `KeepsPull` leaves out the steps that break this.
-/

namespace WalaStack.Spec.Jobs

open WalaStack.Rust WalaStack.Impl.Jobs WalaStack.Log

/-- A call moved a job that waited to `Running`. -/
def Moves (P : Provider) (before after : P.State) (id : JobId) : Prop :=
  (∃ v, P.view before id = some v ∧ v.status.waiting = true) ∧
    ∃ v, P.view after id = some v ∧ v.status = .running

/-- A job that was moved for this worker, until it is dispatched. -/
def moved (P : Provider) : Obligation (LoopEntry P.State) JobId where
  opens e id := ∃ before after, e = .ran before after ∧ Moves P before after id
  closes e id := ∃ r, e = .dispatched r ∧ r.id = id

/-- A job in the future of the worker's select. -/
def InHand {S : JobStore} (s : WorkerLoop S) (id : JobId) : Prop :=
  ∃ r, s.point = .selecting (.ready (some r)) ∧ r.id = id

def Kept (P : Provider) (s : WorkerLoop P.toJobStore) : Prop :=
  ∀ id, (moved P).Pending s.log id → InHand s id

/-- A pull of these queues finds a job. -/
def Finds (P : Provider) (queues : List String) (now : DateTime) (env : P.Env) (s : P.State) : Prop :=
  ∃ id, Moves P s (P.pullNext queues now env s).2 id

/-- The step neither leaves a future with a job behind, nor runs a pull whose
job nobody gets. -/
def KeepsPull (P : Provider) (mode : PullMode) (config : JobsConfig) (s : WorkerLoop P.toJobStore) :
    LoopAction P.Env → Prop
  | .takeShutdown | .abort => ∀ r, s.point ≠ .selecting (.ready (some r))
  | .call now env => mode = .atCall → P.refuses env ∨ ¬ P.loses config.queues now s.desk.store
  | .execute now env => P.refuses env ∨ ¬ P.loses config.queues now s.desk.store
  | .executeOrphan now env => ¬ Finds P config.queues now env s.desk.store
  | _ => True

end WalaStack.Spec.Jobs
