import WalaStack.Impl.Jobs.Store

/-!
# The SQLite job store

`walastack-jobs/src/sqlite.rs` over the table `walastack_jobs`: each SQL
statement is a function on the table, in SQL's documented meaning, and atomic.
The environment of a call is the error that `sqlx` reports for its statement,
if any; a statement that fails has changed nothing.

What `serde_json` and `chrono` do with the text columns is a `Codec`.
-/

namespace WalaStack.Impl.Jobs

open WalaStack.Rust

/-- The conversions between values and text of the crates that the provider
uses; errors come with their text. -/
structure Codec where
  /-- `serde_json::to_string` -/
  toString : Json.Value → Except String String
  /-- `serde_json::from_str` -/
  fromStr : String → Except String Json.Value
  /-- `DateTime::to_rfc3339` -/
  toRfc3339 : DateTime → String
  /-- `DateTime::parse_from_rfc3339`, as a time in UTC. -/
  parseFromRfc3339 : String → Except String DateTime
  /-- The `Debug` text of a string. -/
  debugStr : String → String

/-- A row of `walastack_jobs`. An integer beyond `i64::MAX` in a column stands
for the `REAL` that SQLite stores there. -/
structure SqliteJobRow where
  id : Int
  name : String
  payload : String
  queue : String
  attempt : Int
  maxAttempts : Int
  status : String
  enqueuedAt : String
  scheduledAt : String
  lastError : Option String

/-- The table: its rows, and the largest `AUTOINCREMENT` id so far. -/
structure SqliteTable where
  sequence : Nat
  rows : List SqliteJobRow

/-! ## Rows -/

/-- `id.0 as i64` -/
def idToI64 (id : JobId) : Int := if id.val ≤ i64Max then id.val else (id.val : Int) - 2 ^ 64

/-- `id as u64` -/
def idOfI64 (id : Int) : JobId := ⟨(id % 2 ^ 64).toNat⟩

def parseStatus (codec : Codec) : String → Except JobsError JobStatus
  | "Pending" => .ok .pending
  | "Running" => .ok .running
  | "Completed" => .ok .completed
  | "Retrying" => .ok .retrying
  | "Dead" => .ok .dead
  | other => .error (.store ("unknown status " ++ codec.debugStr other))

def parseTs (codec : Codec) (s : String) : Except JobsError DateTime :=
  (codec.parseFromRfc3339 s).mapError fun e => .store ("timestamp parse: " ++ e)

/-- The derived `FromRow` reads `attempt` as an `i64`. -/
def SqliteJobRow.fromRow (row : SqliteJobRow) : Except JobsError Unit :=
  if row.attempt ≤ i64Max then .ok ()
  else .error (.store ("error occurred while decoding column \"attempt\": mismatched types; Rust type `i64` " ++
    "(as SQL type `INTEGER`) is not compatible with SQL type `REAL`"))

/-- `FromRow`, and `into_record`. -/
def SqliteJobRow.intoRecord (codec : Codec) (row : SqliteJobRow) : Except JobsError JobRecord := do
  row.fromRow
  let payload ← (codec.fromStr row.payload).mapError .serialization
  let status ← parseStatus codec row.status
  let enqueuedAt ← parseTs codec row.enqueuedAt
  let scheduledAt ← parseTs codec row.scheduledAt
  return {
    id := idOfI64 row.id
    name := ⟨row.name⟩
    payload := payload
    queue := row.queue
    attempt := U32.ofI64 row.attempt
    maxAttempts := U32.ofI64 row.maxAttempts
    status := status
    enqueuedAt := enqueuedAt
    scheduledAt := scheduledAt }

/-! ## Statements -/

namespace SqliteTable

/-- `UPDATE walastack_jobs SET .. WHERE id = ?` -/
def update (id : Int) (set : SqliteJobRow → SqliteJobRow) (t : SqliteTable) : SqliteTable :=
  { t with rows := t.rows.map fun row => if row.id = id then set row else row }

/-- `ORDER BY scheduled_at ASC, id ASC` -/
def before (a b : SqliteJobRow) : Bool :=
  decide (a.scheduledAt < b.scheduledAt) || (a.scheduledAt == b.scheduledAt && decide (a.id < b.id))

/-- The first of some rows in that order: `LIMIT 1`. -/
def first : List SqliteJobRow → Option SqliteJobRow
  | [] => none
  | row :: rows =>
    match first rows with
    | none => some row
    | some row' => if before row' row then some row' else some row

/-- The `WHERE` clause of the inner `SELECT` of `pull_next`. -/
def matchesPull (queues : List String) (nowIso : String) (row : SqliteJobRow) : Bool :=
  queues.contains row.queue && (row.status == "Pending" || row.status == "Retrying") &&
    decide (row.scheduledAt ≤ nowIso)

/-- The row that `pull_next` moves. -/
def pick (queues : List String) (nowIso : String) (t : SqliteTable) : Option SqliteJobRow :=
  first (t.rows.filter (matchesPull queues nowIso))

/-- `attempt + 1`: beyond `i64::MAX` it is the `REAL` `2 ^ 63`, which stays
what it is. -/
def succAttempt (attempt : Int) : Int := min (attempt + 1) (i64Max + 1)

/-- `SET status = 'Running', attempt = attempt + 1` -/
def handOut (row : SqliteJobRow) : SqliteJobRow :=
  { row with status := "Running", attempt := succAttempt row.attempt }

/-- The row that `enqueue` inserts. -/
def newRow (codec : Codec) (id : Nat) (job : NewJob) (payload : String) (now : DateTime) : SqliteJobRow where
  id := id
  name := job.name.val
  payload := payload
  queue := job.queue
  attempt := 0
  maxAttempts := job.maxAttempts.val
  status := "Pending"
  enqueuedAt := codec.toRfc3339 now
  scheduledAt := codec.toRfc3339 job.scheduledAt
  lastError := none

def enqueue (codec : Codec) (job : NewJob) (now : DateTime) (fault : Option String) (t : SqliteTable) :
    Except JobsError JobId × SqliteTable :=
  match codec.toString job.payload, fault with
  | .error e, _ => (.error (.serialization e), t)
  | .ok _, some e => (.error (.store e), t)
  | .ok payload, none =>
    if t.sequence < i64Max then
      let id := t.sequence + 1
      (.ok (idOfI64 id), ⟨id, t.rows ++ [newRow codec id job payload now]⟩)
    else (.error (.store "database or disk is full"), t)

def pullNext (codec : Codec) (queues : List String) (now : DateTime) (fault : Option String) (t : SqliteTable) :
    Except JobsError (Option JobRecord) × SqliteTable :=
  if queues.isEmpty then (.ok none, t)
  else
    match fault, t.pick queues (codec.toRfc3339 now) with
    | some e, _ => (.error (.store e), t)
    | none, none => (.ok none, t)
    -- The row is decoded after the statement has changed it.
    | none, some row => (((handOut row).intoRecord codec).map some, t.update row.id handOut)

def markCompleted (id : JobId) (fault : Option String) (t : SqliteTable) : Except JobsError Unit × SqliteTable :=
  match fault with
  | some e => (.error (.store e), t)
  | none => (.ok (), t.update (idToI64 id) fun row => { row with status := "Completed" })

def markFailed (codec : Codec) (id : JobId) (error : String) (nextAttemptAt : Option DateTime)
    (fault : Option String) (t : SqliteTable) : Except JobsError Unit × SqliteTable :=
  match fault, nextAttemptAt with
  | some e, _ => (.error (.store e), t)
  | none, some at_ =>
    (.ok (), t.update (idToI64 id) fun row =>
      { row with status := "Retrying", lastError := some error, scheduledAt := codec.toRfc3339 at_ })
  | none, none =>
    (.ok (), t.update (idToI64 id) fun row => { row with status := "Dead", lastError := some error })

def fetch (codec : Codec) (id : JobId) (fault : Option String) (t : SqliteTable) :
    Except JobsError (Option JobRecord) :=
  match fault, t.rows.find? fun row => row.id = idToI64 id with
  | some e, _ => .error (.store e)
  | none, none => .ok none
  | none, some row => (row.intoRecord codec).map some

end SqliteTable

/-- `impl JobStore for SqliteJobStore`, over a table that is empty at first. -/
def SqliteJobStore (codec : Codec) : JobStore where
  State := SqliteTable
  Env := Option String
  new := ⟨0, []⟩
  enqueue := SqliteTable.enqueue codec
  pullNext := SqliteTable.pullNext codec
  markCompleted := SqliteTable.markCompleted
  markFailed := SqliteTable.markFailed codec
  fetch := SqliteTable.fetch codec

end WalaStack.Impl.Jobs
