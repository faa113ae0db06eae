import Mathlib.Data.List.AList
import Mathlib.Logic.Function.Basic
import WalaStack.Impl.Runtime.Supervision

/-!
# The supervision tree

`SupervisionTree` of `walastack-runtime/src/supervision.rs`: the calls of
`start_service` with the watchers that they spawn, the map of their handles by
service name, and the two operations that empty it, `drain` and
`shutdown_now`. The watchers are those of `Watcher.step`.
-/

namespace WalaStack.Impl.Runtime

open WalaStack.Rust

/-- A call of `start_service`, with the watcher that it spawns when
`Service::start` succeeds. -/
structure Child where
  svc : Supervised
  watcher : Watcher
  /-- The handle was inserted into the map, and the call has returned. -/
  inserted : Bool
  /-- `watcher.abort()` was called, -/
  aborted : Bool
  /-- and the watcher's task has been dropped at an await. Or the caller dropped
  `start_service` while it awaited `Service::start`. -/
  cancelled : Bool

namespace Child

def new (svc : Supervised) (k : Kernel) : Child := ⟨svc, .init k, false, false, false⟩

/-- The watcher's task exists. -/
def spawned (c : Child) : Bool :=
  match c.watcher.phase with
  | .starting | .refused => false
  | _ => true

/-- Its `JoinHandle` is ready. -/
def finished (c : Child) : Bool := c.cancelled || c.watcher.phase == .returned

/-- The watcher has been spawned, and has not finished. -/
def running (c : Child) : Bool := c.spawned && !c.finished

/-- A dropped watcher takes no step; its root task is detached, and may end. -/
def allows (c : Child) : WatcherAction → Bool
  | .exits _ => true
  | _ => !c.cancelled

/-- The root task runs, whether its watcher does or not. -/
def rootRuns (c : Child) : Bool := c.watcher.phase == .watching && c.watcher.handle == ⟨true, none⟩

end Child

/-- A call of `drain`. -/
structure Drain where
  deadline : Duration
  /-- The handles that it has not dropped, the awaited one first. -/
  pending : List Nat
  /-- The end of the timeout on the first of them. -/
  wake : Nat
  graceful : Nat

/-- What happened to the map. -/
inductive TreeEntry
  | inserted (name : String) (i : Nat)
  | emptied
deriving DecidableEq, Repr

structure SupervisionTree where
  kernel : Kernel
  /-- The number of calls of `start_service`. -/
  next : Nat
  calls : Nat → Option Child
  /-- The map of the watchers' handles. -/
  children : AList fun _ : String => Nat
  drains : List Drain
  log : List TreeEntry

inductive TreeAction
  | tick (d : Nat)
  | signal
  /-- `start_service` is called, and calls `Service::start`. -/
  | startService (svc : Supervised)
  /-- A step of a call's `Service::start` or of its watcher. -/
  | watch (i : Nat) (a : WatcherAction)
  /-- The end of `start_service`. -/
  | insert (i : Nat)
  /-- The caller drops `start_service` while it awaits `Service::start`. -/
  | abandon (i : Nat)
  /-- An aborted watcher is dropped. -/
  | cancel (i : Nat)
  /-- `drain` is called, and takes the handles in some order. -/
  | drain (deadline : Duration) (order : List Nat)
  /-- The watcher that a drain awaits has finished. -/
  | joined (j : Nat)
  /-- The timeout on it elapses, and its handle is dropped. -/
  | elapsed (j : Nat)
  /-- `shutdown_now` -/
  | shutdownNow

namespace SupervisionTree

def new (k : Kernel) : SupervisionTree := ⟨k, 0, fun _ => none, ∅, [], []⟩

def setCall (t : SupervisionTree) (i : Nat) (c : Child) : SupervisionTree :=
  { t with calls := Function.update t.calls i (some c) }

/-- The watchers whose handles are in the map. -/
def held (t : SupervisionTree) : List Nat := t.children.entries.map fun e => e.2

/-- `supervised_count` -/
def supervisedCount (t : SupervisionTree) : Nat := t.children.entries.length

/-- `children.insert(name.to_string(), ChildState { watcher })` -/
def insertChild (t : SupervisionTree) (i : Nat) (c : Child) : SupervisionTree :=
  { t.setCall i { c with inserted := true } with
    children := t.children.insert c.svc.name i
    log := t.log ++ [.inserted c.svc.name i] }

/-- `children.drain()` -/
def takeChildren (t : SupervisionTree) : SupervisionTree := { t with children := ∅, log := t.log ++ [.emptied] }

/-- A drain goes on to its next handle. -/
def Drain.advance (d : Drain) (k : Kernel) (rest : List Nat) (graceful : Nat) : Drain :=
  { d with pending := rest, wake := k.now + d.deadline.nanos, graceful := graceful }

/-- Whether the watcher of a call has finished. -/
def hasFinished (t : SupervisionTree) (i : Nat) : Bool := (t.calls i).any Child.finished

def step (t : SupervisionTree) : TreeAction → Option SupervisionTree
  | .tick d => some { t with kernel := { t.kernel with now := t.kernel.now + d } }
  | .signal => some { t with kernel := { t.kernel with shutdown := true } }
  | .startService svc => some { t.setCall t.next (.new svc t.kernel) with next := t.next + 1 }
  | .watch i a =>
    match t.calls i with
    | some c =>
      if c.allows a then (c.watcher.step c.svc t.kernel a).map fun w => t.setCall i { c with watcher := w }
      else none
    | none => none
  | .insert i =>
    match t.calls i with
    | some c => if c.spawned && !c.inserted then some (t.insertChild i c) else none
    | none => none
  | .abandon i =>
    match t.calls i with
    | some c =>
      if c.watcher.phase = .starting then some (t.setCall i { c with cancelled := true }) else none
    | none => none
  | .cancel i =>
    match t.calls i with
    | some c => if c.aborted && c.running then some (t.setCall i { c with cancelled := true }) else none
    | none => none
  | .drain deadline order =>
    if order.Perm t.held then
      some { t.takeChildren with drains := t.drains ++ [⟨deadline, order, t.kernel.now + deadline.nanos, 0⟩] }
    else none
  | .joined j =>
    match t.drains[j]? with
    | some d =>
      match d.pending with
      | i :: rest =>
        if t.hasFinished i then
          some { t with drains := t.drains.set j (Drain.advance d t.kernel rest (d.graceful + 1)) }
        else none
      | [] => none
    | none => none
  | .elapsed j =>
    match t.drains[j]? with
    | some d =>
      match d.pending with
      | i :: rest =>
        if d.wake ≤ t.kernel.now ∧ t.hasFinished i = false then
          some { t with drains := t.drains.set j (Drain.advance d t.kernel rest d.graceful) }
        else none
      | [] => none
    | none => none
  | .shutdownNow =>
    some { t.takeChildren with
      calls := fun i => (t.calls i).map fun c => if i ∈ t.held then { c with aborted := true } else c }

end SupervisionTree

end WalaStack.Impl.Runtime
