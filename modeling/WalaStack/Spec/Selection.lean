import WalaStack.Framework.Arrivals
import WalaStack.Rust.Rfc3339
import WalaStack.Spec.JobStore

/-!
# Which job a pull selects

In memory, the jobs of a queue are taken in the order in which they were
enqueued or queued again, which `FiledStore` records beside the store. In
SQLite they are taken in the order of the instants that the text of their rows
was written from.
-/

namespace WalaStack.Spec.Jobs

open WalaStack.Rust WalaStack.Impl.Jobs WalaStack.Transition WalaStack.Arrivals

/-! ## In memory -/

/-- The store, with the ids that its callers have queued, in order. -/
structure FiledStore where
  inner : InMemoryStoreInner
  arrivals : List Nat

/-- The id that a call queues. -/
def StoreCall.arrival (inner : InMemoryStoreInner) : StoreCall → Option Nat
  | enqueue _ _ => some (inner.nextId + 1)
  | markFailed id _ (some _) => if (inner.records id.val).isSome then some id.val else none
  | _ => none

def FiledStore.step (s : FiledStore) (call : StoreCall) : Option FiledStore :=
  (call.run s.inner).map fun inner => ⟨inner, s.arrivals ++ (call.arrival s.inner).toList⟩

/-- The states of a store whose callers mark only running jobs. -/
abbrev FiledReachable : FiledStore → Prop :=
  Reach FiledStore.step (· = ⟨.empty, []⟩) fun s => StoreCall.marksRunning s.inner

/-- The record of a job that waits in the queue, and is due. -/
structure Waiting (inner : InMemoryStoreInner) (now : DateTime) (queue : String) (r : JobRecord) : Prop where
  record : inner.records r.id.val = some r
  status : r.status = .pending ∨ r.status = .retrying
  queue : r.queue = queue
  due : r.scheduledAt ≤ now

/-- Of the jobs that wait in the queue, `r` was queued first. -/
def QueuedFirst (s : FiledStore) (now : DateTime) (queue : String) (r : JobRecord) : Prop :=
  Waiting s.inner now queue r ∧
    ∀ r', Waiting s.inner now queue r' → r' ≠ r → Earlier s.arrivals r.id.val r'.id.val

/-- All but the job is as before. -/
def OthersKept (id : Nat) (inner inner' : InMemoryStoreInner) : Prop :=
  inner'.nextId = inner.nextId ∧ (∀ x, x ≠ id → inner'.records x = inner.records x) ∧
    ∀ queue, (inner'.queues queue).filter (· ≠ id) = (inner.queues queue).filter (· ≠ id)

/-- A pull from a list of queues returns nothing, and does nothing, exactly if
no job waits in them; otherwise it takes the job that was queued first in the
first of the queues in which one waits. `count` says how an attempt is counted. -/
structure Selects (count : Nat → Nat) (s : FiledStore) (queues : List String) (now : DateTime) : Prop where
  none_iff : (s.inner.pullNext queues now).1 = .ok none ↔ ∀ queue ∈ queues, ∀ r, ¬ Waiting s.inner now queue r
  idle : (s.inner.pullNext queues now).1 = .ok none → (s.inner.pullNext queues now).2 = s.inner
  first : (∃ queue ∈ queues, ∃ r, Waiting s.inner now queue r) →
    ∃ pre queue post r r', queues = pre ++ queue :: post ∧ (∀ q ∈ pre, ∀ r₀, ¬ Waiting s.inner now q r₀) ∧
      QueuedFirst s now queue r ∧ r' = { r with attempt := r'.attempt, status := .running } ∧
      r'.attempt.val = count r.attempt.val ∧
      (s.inner.pullNext queues now).1 = .ok (some r') ∧
      (s.inner.pullNext queues now).2.records r.id.val = some r' ∧
      (∀ queue, r.id.val ∉ (s.inner.pullNext queues now).2.queues queue) ∧
      OthersKept r.id.val s.inner (s.inner.pullNext queues now).2

/-! ## In SQLite -/

/-- A call that changes the table, with the error of its statement, if any. -/
inductive SqlCall
  | enqueue (job : NewJob) (now : DateTime) (fault : Option String)
  | pullNext (queues : List String) (now : DateTime) (fault : Option String)
  | markCompleted (id : JobId) (fault : Option String)
  | markFailed (id : JobId) (error : String) (nextAttemptAt : Option DateTime) (fault : Option String)

namespace SqlCall

def run (codec : Codec) (t : SqliteTable) : SqlCall → Option SqliteTable
  | enqueue job now fault => some (SqliteTable.enqueue codec job now fault t).2
  | pullNext queues now fault => some (SqliteTable.pullNext codec queues now fault t).2
  | markCompleted id fault => some (SqliteTable.markCompleted id fault t).2
  | markFailed id error nextAttemptAt fault => some (SqliteTable.markFailed codec id error nextAttemptAt fault t).2

/-- What the call schedules is in the years 0 to 9999. -/
def InYears : SqlCall → Prop
  | enqueue job _ _ => job.scheduledAt.InYears
  | markFailed _ _ nextAttemptAt _ => ∀ t, nextAttemptAt = some t → t.InYears
  | _ => True

end SqlCall

/-- The tables that calls in these years lead to. -/
abbrev SqlReachable (codec : Codec) : SqliteTable → Prop :=
  Reach (SqlCall.run codec) (· = ⟨0, []⟩) fun _ call => call.InYears

/-- `to_rfc3339` prints as documented in the years 0 to 9999. -/
def PrintsYears (codec : Codec) : Prop := ∀ t : DateTime, t.InYears → codec.toRfc3339 t = t.toRfc3339

/-- The row was scheduled for `u`. -/
def ScheduledFor (codec : Codec) (row : SqliteJobRow) (u : DateTime) : Prop :=
  u.InYears ∧ row.scheduledAt = codec.toRfc3339 u

/-- The ids are a primary key, and each row was scheduled by `enqueue` or
`mark_failed` for an instant of the years 0 to 9999. -/
structure Written (codec : Codec) (t : SqliteTable) : Prop where
  key : (t.rows.map (·.id)).Nodup
  scheduled : ∀ row ∈ t.rows, ∃ u, ScheduledFor codec row u

/-- A row that waits in one of the queues, and is due. -/
structure WaitingRow (codec : Codec) (t : SqliteTable) (queues : List String) (now : DateTime) (row : SqliteJobRow)
    (u : DateTime) : Prop where
  mem : row ∈ t.rows
  scheduled : ScheduledFor codec row u
  status : row.status = "Pending" ∨ row.status = "Retrying"
  queue : row.queue ∈ queues
  due : u ≤ now

/-- The least such row by its instant, and then by its id. -/
def LeastRow (codec : Codec) (t : SqliteTable) (queues : List String) (now : DateTime) (row : SqliteJobRow)
    (u : DateTime) : Prop :=
  WaitingRow codec t queues now row u ∧ ∀ row' u', WaitingRow codec t queues now row' u' → row' ≠ row →
    u.nanos < u'.nanos ∨ u = u' ∧ row.id < row'.id

/-- The table with one row moved to `Running`. -/
def Moved (row : SqliteJobRow) (t t' : SqliteTable) : Prop :=
  t'.sequence = t.sequence ∧ ∃ pre post, t.rows = pre ++ row :: post ∧
    t'.rows = pre ++ { row with status := "Running", attempt := SqliteTable.succAttempt row.attempt } :: post

/-- A pull moves the least row that waits, and returns nothing exactly if
there is none. -/
structure Chronological (codec : Codec) (t : SqliteTable) (queues : List String) (now : DateTime) : Prop where
  none_iff : (SqliteTable.pullNext codec queues now none t).1 = .ok none ↔
    ∀ row u, ¬ WaitingRow codec t queues now row u
  idle : (SqliteTable.pullNext codec queues now none t).1 = .ok none →
    (SqliteTable.pullNext codec queues now none t).2 = t
  least : (∃ row u, WaitingRow codec t queues now row u) →
    ∃ row u, LeastRow codec t queues now row u ∧ Moved row t (SqliteTable.pullNext codec queues now none t).2

end WalaStack.Spec.Jobs
