import WalaStack.Impl.Runtime.Scheduler
import WalaStack.Impl.Runtime.SupervisionTree

/-!
# The runtime

`Runtime` of `walastack-runtime/src/runtime.rs`, with the activities that the
kernel owns: the supervision tree with the root tasks of its services, and the
schedules registered on the context's `Scheduler`. `shutdown_gracefully` runs
from its call, over the drain that it awaits, to the publication of
`RuntimeStopped`.
-/

set_option linter.dupNamespace false

namespace WalaStack.Impl.Runtime

open WalaStack.Rust

/-- What happened, in order. -/
inductive RuntimeEntry
  /-- The root task of a service took a step. -/
  | worked (i : Nat)
  /-- A schedule fired, -/
  | fired (k : Nat)
  /-- and ran its function: the call, or a step of the future. -/
  | attempted (k : Nat)
  /-- `RuntimeStopping` is published, -/
  | stopping
  /-- and `RuntimeStopped`. -/
  | stopped
deriving DecidableEq, Repr

structure Runtime where
  tree : SupervisionTree
  /-- The wall clock. -/
  wall : DateTime
  /-- The tasks that `Scheduler::schedule` spawned. -/
  schedules : List (Scheduled × Schedule)
  shutdownDeadline : Duration
  /-- The drain that `shutdown_gracefully` awaits. -/
  draining : Option Nat
  log : List RuntimeEntry

inductive RuntimeAction
  /-- The wall clock is set. -/
  | setWall (wall : DateTime)
  /-- `EventBus::shutdown` -/
  | signal
  /-- A step of the tree. -/
  | tree (a : TreeAction)
  /-- A step of the root task of a service. -/
  | work (i : Nat)
  /-- `Scheduler::schedule` -/
  | register (trigger : Trigger) (policies : Policies)
  /-- A step of a schedule's task, or of those who cancel it. -/
  | schedule (k : Nat) (a : ScheduleAction)
  /-- The future of a schedule's function takes a step, and does not end. -/
  | attempt (k : Nat)
  /-- `shutdown_gracefully` is called; an earlier call of it was dropped. -/
  | shutdownGracefully (order : List Nat)
  /-- Its end, when the drain has returned. -/
  | stopped

namespace Runtime

/-- The runtime that is built with a deadline. -/
def new (k : Kernel) (wall : DateTime) (shutdownDeadline : Duration) : Runtime :=
  ⟨.new k, wall, [], shutdownDeadline, none, []⟩

def clock (r : Runtime) : Clock := ⟨r.tree.kernel.now, r.wall⟩

/-- `EventBus::shutdown`: its read of the signal, the raise and the publication
as one step. They are three in `Shutdown`, where two calls may overlap. -/
def shutdown (r : Runtime) : Runtime :=
  if r.tree.kernel.shutdown then r
  else
    { r with
      tree := { r.tree with kernel := { r.tree.kernel with shutdown := true } }
      log := r.log ++ [.stopping] }

/-- `Scheduler::schedule`. The context's scheduler is made with the event bus. -/
def register (r : Runtime) (trigger : Trigger) (policies : Policies) : Runtime :=
  let cfg : Scheduled := ⟨r.schedules.length + 1, trigger, policies, true⟩
  { r with schedules := r.schedules ++ [(cfg, .init cfg r.clock)] }

/-- What an entry of a schedule's history is to the runtime. -/
def activity? (k : Nat) : TaskEntry → Option RuntimeEntry
  | .called _ _ => some (.attempted k)
  | .published (.fired _ _) => some (.fired k)
  | _ => none

/-- A schedule's task goes from `s` to `s'`. -/
def onSchedule (r : Runtime) (k : Nat) (cfg : Scheduled) (s s' : Schedule) : Runtime :=
  { r with
    schedules := r.schedules.set k (cfg, s')
    log := r.log ++ (s'.history.drop s.history.length).filterMap (activity? k) }

/-- The drain has returned. -/
def drained (r : Runtime) (j : Nat) : Bool := r.tree.drains[j]?.any fun d => d.pending.isEmpty

def step (r : Runtime) : RuntimeAction → Option Runtime
  | .setWall wall => some { r with wall := wall }
  | .signal | .tree .signal => some r.shutdown
  | .tree a => (r.tree.step a).map fun t => { r with tree := t }
  | .work i =>
    if (r.tree.calls i).any Child.rootRuns then some { r with log := r.log ++ [.worked i] } else none
  | .register trigger policies => some (r.register trigger policies)
  | .schedule k a =>
    match r.schedules[k]? with
    | some (cfg, s) => (s.step cfg r.clock a).map (r.onSchedule k cfg s)
    | none => none
  | .attempt k =>
    match r.schedules[k]? with
    | some (_, s) =>
      match s.phase with
      | .calling _ _ _ => some { r with log := r.log ++ [.attempted k] }
      | _ => none
    | none => none
  | .shutdownGracefully order =>
    let r := r.shutdown
    (r.tree.step (.drain r.shutdownDeadline order)).map fun t =>
      { r with tree := t, draining := some r.tree.drains.length }
  | .stopped =>
    match r.draining with
    | some j => if r.drained j then some { r with draining := none, log := r.log ++ [.stopped] } else none
    | none => none

end Runtime

end WalaStack.Impl.Runtime
