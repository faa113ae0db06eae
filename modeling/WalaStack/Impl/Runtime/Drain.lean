import WalaStack.Rust.Num

/-!
# The deadline of a drain

The loop of `SupervisionTree::drain` of `walastack-runtime/src/supervision.rs`
in time, for watchers whose exits are given. Times are in nanoseconds from the
call of `drain`; a watcher that had exited before has the time 0. A task whose
await is over goes on at once.
-/

namespace WalaStack.Impl.Runtime

open WalaStack.Rust

structure WatcherTask where
  /-- When it exits, unless it is aborted; `none` is never. -/
  exit : Option Nat
  aborted : Bool
deriving DecidableEq, Repr

/-- `tokio::time::timeout(deadline, watcher).await.is_ok()`, and when it is
over. The watcher is polled before the timer. -/
def timeout (deadline : Duration) (now : Nat) (watcher : WatcherTask) : Bool × Nat :=
  match watcher.exit with
  | some t => if t ≤ now + deadline.nanos then (true, max now t) else (false, now + deadline.nanos)
  | none => (false, now + deadline.nanos)

structure Drained where
  graceful : Nat
  returnedAt : Nat
  /-- The watchers as they are left. -/
  watchers : List WatcherTask
deriving DecidableEq, Repr

/-- The loop over the handles. A timeout that elapses drops its handle, which
leaves the watcher's task as it is. -/
def drainLoop (deadline : Duration) (graceful now : Nat) : List WatcherTask → Drained
  | [] => ⟨graceful, now, []⟩
  | watcher :: watchers =>
    let (ok, now) := timeout deadline now watcher
    let drained := drainLoop deadline (if ok then graceful + 1 else graceful) now watchers
    { drained with watchers := watcher :: drained.watchers }

/-- `drain`, with the handles in the order in which the map gives them out. -/
def drain (deadline : Duration) (watchers : List WatcherTask) : Drained := drainLoop deadline 0 0 watchers

end WalaStack.Impl.Runtime
