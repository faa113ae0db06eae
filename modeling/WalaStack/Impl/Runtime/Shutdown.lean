import Mathlib.Data.List.Basic

/-!
# Shutting down

`EventBus::shutdown` of `walastack-runtime/src/events.rs` and
`Runtime::shutdown_gracefully` of `walastack-runtime/src/runtime.rs`, in
their atomic steps: a call reads the watch, sets it and publishes
`RuntimeStopping` one after the other, and the calls on the clones of a bus
run at the same time. `shutdown_gracefully` borrows the runtime mutably, so
that its calls come one after another; the caller may drop one of them while
it awaits the drain.
-/

namespace WalaStack.Impl.Runtime

/-- What the two functions publish. -/
inductive ShutdownEvent
  /-- `RuntimeStopping` -/
  | stopping
  /-- `RuntimeStopped` -/
  | stopped
deriving DecidableEq, Repr

/-- Where a call of `EventBus::shutdown` is. -/
inductive BusCall
  /-- Before `*self.inner.shutdown_tx.borrow()`. -/
  | reading
  /-- It read `false`, and is before `send_replace(true)`. -/
  | setting
  /-- Before `self.publish(RuntimeStopping)`. -/
  | publishing
  /-- It has returned at its end, -/
  | published
  /-- or early, since it read `true`. -/
  | skipped
deriving DecidableEq, Repr

namespace BusCall

def returned : BusCall → Bool
  | .published | .skipped => true
  | .reading | .setting | .publishing => false

end BusCall

/-- Where the call of `shutdown_gracefully` is. -/
inductive GracefulCall
  /-- There is none. -/
  | idle
  /-- Before `self.context.events().is_shut_down()`. -/
  | checking
  /-- In its call of `EventBus::shutdown`. -/
  | signalling (i : Nat)
  /-- It awaits `self.supervision.drain(..)`. -/
  | draining
  /-- Before `self.context.publish(RuntimeStopped)`. -/
  | stopping
deriving DecidableEq, Repr

structure Shutdown where
  /-- The watch. -/
  down : Bool
  calls : List BusCall
  graceful : GracefulCall
  /-- The number of calls of `shutdown_gracefully` that have returned. -/
  returned : Nat
  log : List ShutdownEvent

inductive ShutdownAction
  /-- `EventBus::shutdown` is called on a clone of the bus. -/
  | call
  | read (i : Nat)
  | set (i : Nat)
  | publish (i : Nat)
  /-- `shutdown_gracefully` is called. -/
  | gracefully
  | check
  /-- Its call of `EventBus::shutdown` has returned. -/
  | signalled
  /-- The drain has returned. -/
  | drained
  /-- The caller drops the future. -/
  | drop
  /-- `RuntimeStopped` is published, and the call returns. -/
  | stop
deriving DecidableEq, Repr

namespace Shutdown

def new : Shutdown := ⟨false, [], .idle, 0, []⟩

def call (s : Shutdown) : Shutdown := { s with calls := s.calls ++ [.reading] }

/-- A call of `EventBus::shutdown` goes on from `c` to `c'`. -/
def advance (s : Shutdown) (i : Nat) (c c' : BusCall) : Option Shutdown :=
  if s.calls[i]? = some c then some { s with calls := s.calls.set i c' } else none

/-- The call of `shutdown_gracefully` goes on from `g` to `g'`. -/
def proceed (s : Shutdown) (g g' : GracefulCall) : Option Shutdown :=
  if s.graceful = g then some { s with graceful := g' } else none

def step (s : Shutdown) : ShutdownAction → Option Shutdown
  | .call => some s.call
  | .read i => s.advance i .reading (if s.down then .skipped else .setting)
  | .set i => (s.advance i .setting .publishing).map fun s => { s with down := true }
  | .publish i => (s.advance i .publishing .published).map fun s => { s with log := s.log ++ [.stopping] }
  | .gracefully => s.proceed .idle .checking
  | .check =>
    if s.down then s.proceed .checking .draining
    else (s.proceed .checking (.signalling s.calls.length)).map call
  | .signalled =>
    match s.graceful with
    | .signalling i => if s.calls[i]?.any BusCall.returned then some { s with graceful := .draining } else none
    | _ => none
  | .drained => s.proceed .draining .stopping
  | .drop => s.proceed .draining .idle
  | .stop =>
    (s.proceed .stopping .idle).map fun s => { s with returned := s.returned + 1, log := s.log ++ [.stopped] }

end Shutdown

end WalaStack.Impl.Runtime
