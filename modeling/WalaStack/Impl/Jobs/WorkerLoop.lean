import WalaStack.Impl.Jobs.Worker

/-!
# `worker_loop`, await by await

One worker's loop over a store that others use too. The pool takes the call of
`pull_next` with the branch of the select that follows it as one step; here
every point between them is a state: the check of the signal, the call, the
polls of the future, the statement's execution and the branch that is taken.

The in-memory provider moves the job in the call itself and returns a future
that is ready. The SQLite provider sends its statement when the future is
polled; a future that is dropped after that leaves the statement behind, which
may still be executed.
-/

namespace WalaStack.Impl.Jobs

open WalaStack.Rust WalaStack.Impl.Runtime

/-- When a provider runs its `pull_next`. -/
inductive PullMode
  /-- `InMemoryJobStore`: before the future is returned. -/
  | atCall
  /-- `SqliteJobStore`: while the future is polled. -/
  | polled
deriving DecidableEq, Repr

/-- The future of `store.pull_next(..)`. -/
inductive PullFuture
  | created
  /-- It was polled, and its statement is with the database. -/
  | sent
  /-- It is ready: with a record, or with `Ok(None)` or an error, after both
  of which the loop sleeps. -/
  | ready (pulled : Option JobRecord)

/-- Where the loop is. -/
inductive LoopPoint
  /-- At the check of the signal. -/
  | head
  /-- The signal was not raised; `pull_next` is to be called. -/
  | calling
  /-- In the select on the signal and the future. -/
  | selecting (future : PullFuture)
  /-- In `dispatch_one`. -/
  | dispatching (record : JobRecord)
  /-- In the select on the signal and the poll interval. -/
  | sleeping (wake : Nat)
  /-- The loop was left, or its task aborted. -/
  | stopped

/-- What happened to jobs: the executions of this worker's pulls, with the
store before and after, and the records passed to `dispatch_one`. -/
inductive LoopEntry (State : Type)
  | ran (before after : State)
  | dispatched (record : JobRecord)

structure WorkerLoop (S : JobStore) where
  kernel : Kernel
  desk : Desk S
  point : LoopPoint
  /-- A statement whose future was dropped is still with the database. -/
  orphaned : Bool
  log : List (LoopEntry S.State)

inductive LoopAction (Env : Type)
  | tick (d : Nat)
  | signal
  /-- A call of the store by someone else. -/
  | other (a : DeskAction Env)
  /-- `if shutdown.is_shut_down() { break; }` -/
  | check
  /-- The call of `store.pull_next(..)`. -/
  | call (now : DateTime) (env : Env)
  /-- The first poll of the future. -/
  | poll
  /-- The database executes the statement. -/
  | execute (now : DateTime) (env : Env)
  /-- The database executes a statement whose future was dropped. -/
  | executeOrphan (now : DateTime) (env : Env)
  /-- The branch `res = store.pull_next(..)`. -/
  | takePull
  /-- The branch `() = shutdown.wait()` of either select. -/
  | takeShutdown
  /-- The branch `() = tokio::time::sleep(config.poll_interval)`. -/
  | takeSleep
  /-- `dispatch_one` returns, after its call of the store. -/
  | dispatchReturns (m : Mark) (env : Env)
  /-- The task of the loop is aborted at an await, or panics in the handler. -/
  | abort

/-- The worker that a call of the store is by. -/
def DeskAction.worker? {Env : Type} : DeskAction Env → Option Nat
  | .enqueue _ _ _ => none
  | .pull i _ _ _ | .mark i _ _ | .crash i => some i

namespace WorkerLoop

variable {S : JobStore}

def init (S : JobStore) (k : Kernel) : WorkerLoop S := ⟨k, .new S, .head, false, []⟩

/-- The worker's number among the callers of the store. -/
def me : Nat := 0

/-- `pull_next` runs. -/
def pull (config : JobsConfig) (s : WorkerLoop S) (now : DateTime) (env : S.Env) : Option (WorkerLoop S) :=
  (s.desk.step (.pull me config.queues now env)).map fun desk =>
    { s with desk := desk, log := s.log ++ [.ran s.desk.store desk.store] }

/-- The loop ends, and what the worker held is dropped with its future. -/
def stop (s : WorkerLoop S) (orphaned : Bool) : WorkerLoop S :=
  { s with
    desk := { s.desk with held := Function.update s.desk.held me none }
    point := .stopped
    orphaned := orphaned }

/-- Whether a future leaves a statement behind when it is dropped. -/
def leavesStatement : PullFuture → Bool
  | .sent => true
  | .created | .ready _ => false

def step (mode : PullMode) (config : JobsConfig) (s : WorkerLoop S) : LoopAction S.Env → Option (WorkerLoop S)
  | .tick d => some { s with kernel := { s.kernel with now := s.kernel.now + d } }
  | .signal => some { s with kernel := { s.kernel with shutdown := true } }
  | .other a => if a.worker? = some me then none else (s.desk.step a).map fun desk => { s with desk := desk }
  | .check =>
    match s.point with
    | .head => some (if s.kernel.shutdown then s.stop false else { s with point := .calling })
    | _ => none
  | .call now env =>
    match s.point, mode with
    | .calling, .atCall =>
      (s.pull config now env).map fun s => { s with point := .selecting (.ready (s.desk.held me)) }
    | .calling, .polled => some { s with point := .selecting .created }
    | _, _ => none
  | .poll =>
    match s.point with
    | .selecting .created => some { s with point := .selecting .sent }
    | _ => none
  | .execute now env =>
    match s.point with
    | .selecting .sent =>
      (s.pull config now env).map fun s => { s with point := .selecting (.ready (s.desk.held me)) }
    | _ => none
  | .executeOrphan now env =>
    if s.orphaned then (s.pull config now env).map fun s => s.stop false else none
  | .takePull =>
    match s.point with
    | .selecting (.ready (some r)) => some { s with point := .dispatching r, log := s.log ++ [.dispatched r] }
    | .selecting (.ready none) => some { s with point := .sleeping (s.kernel.now + config.pollInterval.nanos) }
    | _ => none
  | .takeShutdown =>
    if s.kernel.shutdown then
      match s.point with
      | .selecting future => some (s.stop (leavesStatement future))
      | .sleeping _ => some (s.stop false)
      | _ => none
    else none
  | .takeSleep =>
    match s.point with
    | .sleeping wake => if wake ≤ s.kernel.now then some { s with point := .head } else none
    | _ => none
  | .dispatchReturns m env =>
    match s.point with
    | .dispatching _ => (s.desk.step (.mark me m env)).map fun desk => { s with desk := desk, point := .head }
    | _ => none
  | .abort =>
    match s.point, mode with
    -- a select is suspended only on a future that had to be polled
    | .selecting .sent, .polled => some (s.stop true)
    | .selecting (.ready _), .polled => some (s.stop false)
    | .sleeping _, _ | .dispatching _, _ => some (s.stop false)
    | _, _ => none

end WorkerLoop

end WalaStack.Impl.Jobs
