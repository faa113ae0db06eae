import WalaStack.Rust.Chrono
import WalaStack.Rust.Json
import Mathlib.Logic.Function.Basic

/-!
# The job store

The records of `walastack-jobs/src/lib.rs`, the capability `trait JobStore`
and its in-memory provider.

A method of the trait takes the state of the store and returns the new one
with its result: each runs under the store's lock, or as one SQL statement.
The system clock that a method reads is an argument, and so is what the
provider's environment answers to the call.
-/

namespace WalaStack.Impl.Jobs

open WalaStack.Rust

/-! ## Records -/

/-- Logical name of a job type. -/
structure JobName where
  val : String
deriving DecidableEq, Repr

/-- Identifier for a persisted job. -/
structure JobId where
  val : Nat
deriving DecidableEq, Repr

/-- A new job staged for `JobStore::enqueue`. -/
structure NewJob where
  name : JobName
  payload : Json.Value
  queue : String
  maxAttempts : U32
  scheduledAt : DateTime

/-- Lifecycle state of a persisted job. -/
inductive JobStatus
  | pending
  | running
  | completed
  | retrying
  | dead
deriving DecidableEq, Repr

/-- `matches!(status, JobStatus::Pending | JobStatus::Retrying)` -/
def JobStatus.waiting : JobStatus → Bool
  | pending | retrying => true
  | _ => false

/-- A persisted job record returned by the store. -/
structure JobRecord where
  id : JobId
  name : JobName
  payload : Json.Value
  queue : String
  /-- Current attempt count (1 on first dispatch). -/
  attempt : U32
  maxAttempts : U32
  status : JobStatus
  enqueuedAt : DateTime
  scheduledAt : DateTime

/-- `JobsError` -/
inductive JobsError
  | serialization (message : String)
  | store (message : String)
  | other (message : String)
deriving DecidableEq, Repr

/-! ## The capability -/

/-- `trait JobStore`, by the states of a provider. -/
structure JobStore where
  State : Type
  /-- What the environment of the provider answers to a call. -/
  Env : Type
  new : State
  enqueue : NewJob → DateTime → Env → State → Except JobsError JobId × State
  pullNext : List String → DateTime → Env → State → Except JobsError (Option JobRecord) × State
  markCompleted : JobId → Env → State → Except JobsError Unit × State
  markFailed : JobId → String → Option DateTime → Env → State → Except JobsError Unit × State
  fetch : JobId → Env → State → Except JobsError (Option JobRecord)

/-! ## The in-memory provider -/

/-- The state behind the mutex of an `InMemoryJobStore`. Queues are FIFO, with
a missing queue as an empty one. Records are never removed, so memory ends
before the `u64` of `nextId` does. -/
structure InMemoryStoreInner where
  nextId : Nat
  queues : String → List Nat
  records : Nat → Option JobRecord

namespace InMemoryStoreInner

/-- `Default::default()` -/
def empty : InMemoryStoreInner := ⟨0, fun _ => [], fun _ => none⟩

def pushBack (queue : String) (id : Nat) (inner : InMemoryStoreInner) : InMemoryStoreInner :=
  { inner with queues := Function.update inner.queues queue (inner.queues queue ++ [id]) }

/-- `queue.remove(idx)` -/
def removeAt (queue : String) (idx : Nat) (inner : InMemoryStoreInner) : InMemoryStoreInner :=
  { inner with queues := Function.update inner.queues queue ((inner.queues queue).eraseIdx idx) }

def insert (id : Nat) (record : JobRecord) (inner : InMemoryStoreInner) : InMemoryStoreInner :=
  { inner with records := Function.update inner.records id (some record) }

/-- The record of a job just enqueued. -/
def newRecord (id : Nat) (job : NewJob) (now : DateTime) : JobRecord where
  id := ⟨id⟩
  name := job.name
  payload := job.payload
  queue := job.queue
  attempt := U32.zero
  maxAttempts := job.maxAttempts
  status := .pending
  enqueuedAt := now
  scheduledAt := job.scheduledAt

def enqueue (job : NewJob) (now : DateTime) (inner : InMemoryStoreInner) :
    Except JobsError JobId × InMemoryStoreInner :=
  let inner := { inner with nextId := inner.nextId + 1 }
  let id := inner.nextId
  (.ok ⟨id⟩, (inner.insert id (newRecord id job now)).pushBack job.queue id)

/-- Whether a record may be handed out at `now`. -/
def eligible (now : DateTime) (r : JobRecord) : Bool :=
  r.status.waiting && decide (r.scheduledAt ≤ now)

/-- The first eligible id of a queue, with its position. -/
def pick (now : DateTime) (queue : String) (inner : InMemoryStoreInner) : Option (Nat × Nat) :=
  (inner.queues queue).zipIdx.find? fun p => (inner.records p.1).any (eligible now)

/-- The record handed out. -/
def handOut (r : JobRecord) : JobRecord := { r with attempt := r.attempt.saturatingSucc, status := .running }

/-- The loop over the queue names. -/
def pullFrom (now : DateTime) : List String → InMemoryStoreInner → Option JobRecord × InMemoryStoreInner
  | [], inner => (none, inner)
  | queue :: queues, inner =>
    match inner.pick now queue with
    | none => pullFrom now queues inner
    | some (id, idx) =>
      match inner.records id with
      | some record => (some (handOut record), (inner.removeAt queue idx).insert id (handOut record))
      | none => pullFrom now queues (inner.removeAt queue idx)

def pullNext (queues : List String) (now : DateTime) (inner : InMemoryStoreInner) :
    Except JobsError (Option JobRecord) × InMemoryStoreInner :=
  let r := inner.pullFrom now queues
  (.ok r.1, r.2)

def markCompleted (id : JobId) (inner : InMemoryStoreInner) : Except JobsError Unit × InMemoryStoreInner :=
  match inner.records id.val with
  | some record => (.ok (), inner.insert id.val { record with status := .completed })
  | none => (.ok (), inner)

/-- The error text is not kept. -/
def markFailed (id : JobId) (_error : String) (nextAttemptAt : Option DateTime) (inner : InMemoryStoreInner) :
    Except JobsError Unit × InMemoryStoreInner :=
  match inner.records id.val with
  | none => (.ok (), inner)
  | some record =>
    match nextAttemptAt with
    | none => (.ok (), inner.insert id.val { record with status := .dead })
    | some at_ =>
      (.ok (), (inner.insert id.val { record with status := .retrying, scheduledAt := at_ }).pushBack
        record.queue id.val)

def fetch (id : JobId) (inner : InMemoryStoreInner) : Except JobsError (Option JobRecord) :=
  .ok (inner.records id.val)

end InMemoryStoreInner

/-- `impl JobStore for InMemoryJobStore` -/
def InMemoryJobStore : JobStore where
  State := InMemoryStoreInner
  Env := Unit
  new := .empty
  enqueue job now _ := InMemoryStoreInner.enqueue job now
  pullNext queues now _ := InMemoryStoreInner.pullNext queues now
  markCompleted id _ := InMemoryStoreInner.markCompleted id
  markFailed id error nextAttemptAt _ := InMemoryStoreInner.markFailed id error nextAttemptAt
  fetch id _ := InMemoryStoreInner.fetch id

end WalaStack.Impl.Jobs
