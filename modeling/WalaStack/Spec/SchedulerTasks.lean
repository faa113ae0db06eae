import WalaStack.Framework.Transition
import WalaStack.Impl.Runtime.SchedulerTasks

/-!
# What the scheduler counts

`CountsActive` is that the map holds the active tasks, and no others, when no
call of `schedule` is in progress. An entry outlives its task where the task
removes itself before it is inserted, and where it panics; `KeepsCount` are the
steps that leave no such entry behind the last call.
-/

namespace WalaStack.Spec.Scheduler

open WalaStack.Rust WalaStack.Impl.Runtime WalaStack.Transition

/-- A call of `schedule` has spawned its task, and not inserted it yet. -/
def CallInProgress (r : SchedulerTasks) : Prop := ∃ id t, r.spawned id = some t ∧ t.inserted = false

/-- The task is active. -/
def Active (r : SchedulerTasks) (id : Nat) : Prop := ∃ t, r.spawned id = some t ∧ t.active = true

/-- Once no call is in progress, the map holds exactly the active tasks. -/
def CountsActive (r : SchedulerTasks) : Prop := ¬ CallInProgress r → ∀ id, id ∈ r.tasks ↔ Active r id

/-- The task has removed itself, or panicked. -/
def Over (r : SchedulerTasks) (id : Nat) : Prop :=
  ∃ t, r.spawned id = some t ∧ (t.stage = .finished ∨ t.stage = .panicked)

/-- The last call in progress inserts a task that is not over, into a map
without the entry of one that is over; and a task with an entry panics only
while a call is in progress. -/
def KeepsCount (r : SchedulerTasks) : SchedulerAction → Prop
  | .insert id => (∀ id' t, r.spawned id' = some t → t.inserted = false → id' = id) →
      ∀ id', id' = id ∨ id' ∈ r.tasks → ¬ Over r id'
  | .run id _ (.resolved .panicked _) => id ∈ r.tasks → CallInProgress r
  | _ => True

end WalaStack.Spec.Scheduler
