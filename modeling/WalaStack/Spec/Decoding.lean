import WalaStack.Rust.ParseRfc3339
import WalaStack.Spec.Selection

/-!
# What the SQLite store reads back

A row is decoded after the statement that returns it. `AtomicOnError` is that a
pull which fails has changed no row, and `Intact` that a job is read back as it
was enqueued, with the number of times that it was pulled as its attempt.
-/

namespace WalaStack.Spec.Jobs

open WalaStack.Rust WalaStack.Impl.Jobs WalaStack.Transition

/-! ## Pulls that fail -/

/-- `chrono` prints and parses RFC 3339 text as documented; text that begins
with a sign is refused. -/
structure Chrono (codec : Codec) : Prop where
  prints : ∀ t, codec.toRfc3339 t = t.printRfc3339
  parses : ∀ text t, parseRfc3339 text = some t → codec.parseFromRfc3339 text = .ok t
  refuses : ∀ text c s, text.toList = c :: s → c = '+' ∨ c = '-' → ∃ e, codec.parseFromRfc3339 text = .error e

/-- `serde_json` reads the text of a payload back, up to 127 nested arrays and
objects; `reread` is what its parser makes of the text of a float. -/
structure ReadsBack (codec : Codec) (reread : Rat → Rat) (payload : Json.Value) : Prop where
  reads : ∀ text, codec.toString payload = .ok text → payload.depth < 128 →
    codec.fromStr text = .ok (payload.mapFloats reread)
  limit : ∀ text, codec.toString payload = .ok text → 128 ≤ payload.depth → ∃ e, codec.fromStr text = .error e

/-- The payload is within the parser's limit, and its floats are read back as
they are. -/
def Readable (reread : Rat → Rat) (payload : Json.Value) : Prop :=
  payload.depth < 128 ∧ payload.mapFloats reread = payload

/-! ## One job -/

/-- The tables that calls of any kind lead to. -/
abbrev TableReachable (codec : Codec) : SqliteTable → Prop :=
  Reach (SqlCall.run codec) (· = ⟨0, []⟩) fun _ _ => True

/-- The table, with the number of pulls that moved a job. -/
structure Stored where
  table : SqliteTable
  pulls : Nat

/-- The call moves the job. -/
def SqlCall.takes (codec : Codec) (id : JobId) (t : SqliteTable) : SqlCall → Bool
  | pullNext queues now none =>
    !queues.isEmpty && (t.pick queues (codec.toRfc3339 now)).any fun row => row.id = idToI64 id
  | _ => false

def Stored.step (codec : Codec) (id : JobId) (s : Stored) (call : SqlCall) : Option Stored :=
  (call.run codec s.table).map fun t => ⟨t, s.pulls + if call.takes codec id s.table then 1 else 0⟩

/-- The record of a job just enqueued. -/
def storedRecord (id : JobId) (job : NewJob) (now : DateTime) : JobRecord where
  id := id
  name := job.name
  payload := job.payload
  queue := job.queue
  attempt := U32.zero
  maxAttempts := job.maxAttempts
  status := .pending
  enqueuedAt := now
  scheduledAt := job.scheduledAt

/-- `fetch` returns the job as it was enqueued, its attempt the number of pulls. -/
def Intact (codec : Codec) (id : JobId) (job : NewJob) (s : Stored) : Prop :=
  ∃ r, SqliteTable.fetch codec id none s.table = .ok (some r) ∧ r.id = id ∧ r.name = job.name ∧
    r.payload = job.payload ∧ r.queue = job.queue ∧ r.maxAttempts = job.maxAttempts ∧ r.attempt.val = s.pulls

/-- The job is retried in the years 0 to 9999 only, and pulled no more often
than a `u32` counts. -/
def KeepsIntact (codec : Codec) (id : JobId) (s : Stored) : SqlCall → Prop
  | .markFailed id' _ (some at_) none => idToI64 id' = idToI64 id → at_.InYears
  | call => call.takes codec id s.table = true → s.pulls < u32Max

end WalaStack.Spec.Jobs
