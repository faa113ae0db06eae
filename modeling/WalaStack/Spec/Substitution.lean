import WalaStack.Rust.Rfc3339
import WalaStack.Spec.JobStore

/-!
# Two providers of one capability

The same calls, on the in-memory store and on the SQLite store, with the same
clock. `SameAnswer` is that the caller cannot tell the stores apart by a call;
`InStep` is the condition on the state of the in-memory store, and on the call,
under which this is so.
-/

namespace WalaStack.Spec.Jobs

open WalaStack.Rust WalaStack.Impl.Jobs

/-! ## Calls and answers -/

/-- A call of a job store, which pulls from one queue. -/
inductive JobCall
  | enqueue (job : NewJob) (now : DateTime)
  | pullNext (queue : String) (now : DateTime)
  | markCompleted (id : JobId)
  | markFailed (id : JobId) (error : String) (nextAttemptAt : Option DateTime)
  | fetch (id : JobId)

/-- What is compared of a result: ids, the pulled job with its attempt, and the
fetched status. -/
inductive JobAnswer
  | enqueued (result : Except JobsError JobId)
  | pulled (result : Except JobsError (Option (JobId × U32)))
  | marked (result : Except JobsError Unit)
  | fetched (result : Except JobsError (Option JobStatus))

namespace JobCall

def run (S : JobStore) (env : S.Env) (s : S.State) : JobCall → JobAnswer × S.State
  | enqueue job now => let r := S.enqueue job now env s; (.enqueued r.1, r.2)
  | pullNext queue now =>
    let r := S.pullNext [queue] now env s
    (.pulled (r.1.map (Option.map fun record => (record.id, record.attempt))), r.2)
  | markCompleted id => let r := S.markCompleted id env s; (.marked r.1, r.2)
  | markFailed id error nextAttemptAt => let r := S.markFailed id error nextAttemptAt env s; (.marked r.1, r.2)
  | fetch id => (.fetched ((S.fetch id env s).map (Option.map (·.status))), s)

/-- The ids are `u64`s, and the times are of the years 0 to 9999. -/
def InRange : JobCall → Prop
  | enqueue job now => job.scheduledAt.InYears ∧ now.InYears
  | pullNext _ now => now.InYears
  | markCompleted id | fetch id => id.val ≤ u64Max
  | markFailed id _ nextAttemptAt => id.val ≤ u64Max ∧ ∀ t, nextAttemptAt = some t → t.InYears

end JobCall

/-! ## Side by side -/

structure Stores where
  mem : InMemoryStoreInner
  sql : SqliteTable

/-- Two empty stores. -/
def Stores.new : Stores := ⟨.empty, ⟨0, []⟩⟩

/-- Both stores take the call; the SQL statement does not fail. -/
def Stores.step (codec : Codec) (p : Stores) (call : JobCall) : Option Stores :=
  some ⟨(call.run InMemoryJobStore () p.mem).2, (call.run (SqliteJobStore codec) none p.sql).2⟩

def SameAnswer (codec : Codec) (p : Stores) (call : JobCall) : Prop :=
  (call.run InMemoryJobStore () p.mem).1 = (call.run (SqliteJobStore codec) none p.sql).1

/-- `chrono` prints RFC 3339 text, and parses what it has printed. -/
structure PrintsRfc3339 (codec : Codec) : Prop where
  text : ∀ t : DateTime, t.InYears → codec.toRfc3339 t = t.toRfc3339
  parses : ∀ t : DateTime, t.InYears → ∃ u, codec.parseFromRfc3339 t.toRfc3339 = .ok u

/-! ## The condition -/

/-- The payload survives the table: `serde_json` parses what it has printed. -/
def Portable (codec : Codec) (payload : Json.Value) : Prop :=
  ∃ text v, codec.toString payload = .ok text ∧ codec.fromStr text = .ok v

/-- The record of the job that stands first in a queue of those that are due. -/
def FirstDue (inner : InMemoryStoreInner) (now : DateTime) (queue : String) (r : JobRecord) : Prop :=
  ∃ pre id post, inner.queues queue = pre ++ id :: post ∧ inner.records id = some r ∧
    InMemoryStoreInner.eligible now r = true ∧
    ∀ x ∈ pre, ∀ r', inner.records x = some r' → InMemoryStoreInner.eligible now r' = false

/-- Scheduled earlier, or for the same time and enqueued earlier, or the same. -/
def NotAfter (r r' : JobRecord) : Prop :=
  r.scheduledAt.nanos < r'.scheduledAt.nanos ∨ r.scheduledAt = r'.scheduledAt ∧ r.id.val ≤ r'.id.val

/-- Of the due jobs of the queue, the one that stands first is the earliest by
its scheduled time and then its id; it has attempts left to count, and its
payload is portable. -/
def PullsInStep (codec : Codec) (inner : InMemoryStoreInner) (queue : String) (now : DateTime) : Prop :=
  ∀ r, FirstDue inner now queue r →
    (∀ id ∈ inner.queues queue, ∀ r', inner.records id = some r' →
      InMemoryStoreInner.eligible now r' = true → NotAfter r r') ∧
    r.attempt.val < u32Max ∧ Portable codec r.payload

/-- The condition on a call: a job is enqueued with a payload that has a text,
while the table has ids left; a queue is pulled in the order of the times; a
record is fetched whose payload is portable. -/
def InStep (codec : Codec) (p : Stores) : JobCall → Prop
  | .enqueue job _ => p.mem.nextId < i64Max ∧ ∃ text, codec.toString job.payload = .ok text
  | .pullNext queue now => PullsInStep codec p.mem queue now
  | .fetch id => ∀ r, p.mem.records id.val = some r → Portable codec r.payload
  | .markCompleted _ | .markFailed _ _ _ => True

end WalaStack.Spec.Jobs
