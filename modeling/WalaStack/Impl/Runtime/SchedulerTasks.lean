import Mathlib.Data.Finset.Card
import Mathlib.Logic.Function.Basic
import WalaStack.Impl.Runtime.Scheduler

/-!
# The tasks of a scheduler

`Scheduler` of `walastack-runtime/src/scheduler.rs`, with the calls of
`schedule` in progress, the tasks that they spawn, and the map `tasks` that
`pending_count` counts. A call spawns its task first and inserts it then; a
task removes itself when its `run_schedule` has returned, under the map's lock
in both. What a task's `run_schedule` does is `Schedule.step`.
-/

namespace WalaStack.Impl.Runtime

open WalaStack.Rust

/-- How far a spawned task has come. -/
inductive TaskStage
  /-- It awaits `run_schedule`. -/
  | running
  /-- `run_schedule` has returned, and the task is about to remove itself. -/
  | leaving
  | finished
  /-- The user's future has panicked, and the task with it. -/
  | panicked
  /-- It was aborted, and dropped at an await. -/
  | dropped
deriving DecidableEq, Repr

/-- The task of a call of `schedule`. -/
structure SpawnedTask where
  cfg : Scheduled
  schedule : Schedule
  stage : TaskStage
  /-- The call has inserted the task into the map, and returned. -/
  inserted : Bool
  /-- `join.abort()` was called. -/
  aborted : Bool

namespace SpawnedTask

/-- The task has neither finished nor been aborted. -/
def active (t : SpawnedTask) : Bool := (t.stage == .running || t.stage == .leaving) && !t.aborted

/-- The stage after a step of `run_schedule` to `s`. -/
def stageAfter (a : ScheduleAction) (s : Schedule) : TaskStage :=
  match a with
  | .resolved .panicked _ => .panicked
  | _ => if s.phase = .returned then .leaving else .running

/-- A step that the task takes itself, or the cancellation by its handle, which
the call returns. -/
def allows (t : SpawnedTask) : ScheduleAction → Bool
  | .shutdown => false
  | .cancel => t.inserted
  | _ => true

/-- `state.cancel.send_replace(true)`, `state.join.abort()` -/
def abort (t : SpawnedTask) : SpawnedTask :=
  { t with schedule := { t.schedule with cancelled := true, unseen := true }, aborted := true }

end SpawnedTask

/-- `SchedulerInner` -/
structure SchedulerTasks where
  /-- `next_id` -/
  next : Nat
  /-- What the calls of `schedule` have spawned, by id. -/
  spawned : Nat → Option SpawnedTask
  /-- The keys of `tasks`. -/
  tasks : Finset Nat

inductive SchedulerAction
  /-- `schedule` is called, and spawns its task. -/
  | spawn (trigger : Trigger) (policies : Policies) (clock : Clock)
  /-- The call inserts it, and returns. -/
  | insert (id : Nat)
  /-- A step of a task's `run_schedule`. -/
  | run (id : Nat) (clock : Clock) (a : ScheduleAction)
  /-- `tasks.remove(&id)`, at the end of a task. -/
  | remove (id : Nat)
  /-- An aborted task is dropped. -/
  | drop (id : Nat)
  | shutdown

namespace SchedulerTasks

/-- `Scheduler::with_events` -/
def new : SchedulerTasks := ⟨1, fun _ => none, ∅⟩

def set (r : SchedulerTasks) (id : Nat) (t : SpawnedTask) : SchedulerTasks :=
  { r with spawned := Function.update r.spawned id (some t) }

/-- `pending_count` -/
def pendingCount (r : SchedulerTasks) : Nat := r.tasks.card

def step (r : SchedulerTasks) : SchedulerAction → Option SchedulerTasks
  | .spawn trigger policies clock =>
    let cfg : Scheduled := ⟨r.next, trigger, policies, true⟩
    some { r.set r.next ⟨cfg, .init cfg clock, .running, false, false⟩ with next := r.next + 1 }
  | .insert id =>
    match r.spawned id with
    | some t =>
      if t.inserted then none else some { r.set id { t with inserted := true } with tasks := insert id r.tasks }
    | none => none
  | .run id clock a =>
    match r.spawned id with
    | some t =>
      if t.stage = .running ∧ t.allows a = true then
        (t.schedule.step t.cfg clock a).map fun s =>
          r.set id { t with schedule := s, stage := SpawnedTask.stageAfter a s }
      else none
    | none => none
  | .remove id =>
    match r.spawned id with
    | some t =>
      if t.stage = .leaving then some { r.set id { t with stage := .finished } with tasks := r.tasks.erase id }
      else none
    | none => none
  | .drop id =>
    match r.spawned id with
    | some t =>
      if t.stage = .running ∧ t.aborted = true then some (r.set id { t with stage := .dropped }) else none
    | none => none
  | .shutdown =>
    some { r with
      spawned := fun id => if id ∈ r.tasks then (r.spawned id).map SpawnedTask.abort else r.spawned id
      tasks := ∅ }

end SchedulerTasks

end WalaStack.Impl.Runtime
