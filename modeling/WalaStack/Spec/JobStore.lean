import WalaStack.Framework.Transition
import WalaStack.Impl.Jobs.Desk
import WalaStack.Impl.Jobs.Sqlite

/-!
# What the job store promises

`Provider`: a job store by what its callers can rely on. Its state is seen
through `view`, the status and the count of each job; every method changes
the view of one job, as the status of a job is meant to change, or fails and
changes nothing. `loses` are the pulls that break this: they move a job to
`Running` and return an error.

`Desk` is a store with its callers: who holds which job, and what was
enqueued, pulled and marked. `Exclusive`, `Numbered` and `Budgeted` are the
promises about its history.

`Represents` is the invariant that ties the queues of the in-memory provider
to its records. `OneReady` are the pulls that find jobs in one queue at most,
whose result is the same for every order of the queue names.
-/

namespace WalaStack.Spec.Jobs

open WalaStack.Rust WalaStack.Impl.Jobs WalaStack.Transition

/-! ## Providers -/

/-- What callers see of a job. -/
structure JobView where
  status : JobStatus
  attempt : Nat
  maxAttempts : U32

/-- A job store that keeps the contract of its methods. -/
structure Provider extends JobStore where
  /-- What holds of every state that the store's callers reach. -/
  Inv : State → Prop
  view : State → JobId → Option JobView
  /-- How the store counts an attempt. -/
  bump : Nat → Nat
  /-- The environment makes the call fail. -/
  refuses : Env → Prop
  /-- `pull_next` moves a job to `Running` that it cannot return. -/
  loses : List String → DateTime → State → Prop
  inv_new : Inv new
  view_new (id : JobId) : view new id = none
  bump_of_lt {n : Nat} : n < u32Max → bump n = n + 1
  enqueue_cases {s : State} (job : NewJob) (now : DateTime) (env : Env) : Inv s →
    (∃ e, enqueue job now env s = (.error e, s)) ∨
    ∃ id s', enqueue job now env s = (.ok id, s') ∧ Inv s' ∧ view s id = none ∧
      view s' = Function.update (view s) id (some ⟨.pending, 0, job.maxAttempts⟩)
  pull_refused {env : Env} (queues : List String) (now : DateTime) (s : State) : refuses env →
    ∃ result, pullNext queues now env s = (result, s) ∧ ∀ r, result ≠ .ok (some r)
  pull_lost {env : Env} {queues : List String} {now : DateTime} {s : State} : Inv s → ¬ refuses env →
    loses queues now s →
    ∃ e id v s', pullNext queues now env s = (.error e, s') ∧ Inv s' ∧ view s id = some v ∧
      v.status.waiting = true ∧
      view s' = Function.update (view s) id (some { v with status := .running, attempt := bump v.attempt })
  pull_cases {env : Env} {queues : List String} {now : DateTime} {s : State} : Inv s → ¬ refuses env →
    ¬ loses queues now s →
    pullNext queues now env s = (.ok none, s) ∨
    ∃ r v s', pullNext queues now env s = (.ok (some r), s') ∧ Inv s' ∧ view s r.id = some v ∧
      v.status.waiting = true ∧ r.attempt = U32.cast (bump v.attempt) ∧ r.maxAttempts = v.maxAttempts ∧
      view s' = Function.update (view s) r.id (some { v with status := .running, attempt := bump v.attempt })
  completed_refused {env : Env} (id : JobId) (s : State) : refuses env →
    ∃ e, markCompleted id env s = (.error e, s)
  completed_ok {env : Env} {id : JobId} {s : State} {v : JobView} : Inv s → ¬ refuses env →
    view s id = some v → v.status = .running →
    ∃ s', markCompleted id env s = (.ok (), s') ∧ Inv s' ∧
      view s' = Function.update (view s) id (some { v with status := .completed })
  failed_refused {env : Env} (id : JobId) (error : String) (next : Option DateTime) (s : State) : refuses env →
    ∃ e, markFailed id error next env s = (.error e, s)
  failed_ok {env : Env} {id : JobId} {s : State} {v : JobView} (error : String) (next : Option DateTime) :
    Inv s → ¬ refuses env → view s id = some v → v.status = .running →
    ∃ s', markFailed id error next env s = (.ok (), s') ∧ Inv s' ∧
      view s' = Function.update (view s) id
        (some { v with status := if next.isSome then .retrying else .dead })

/-! ## Handing out jobs -/

/-- The pulls of a job, in order. -/
def pulls (h : List DeskEntry) (id : JobId) : List JobRecord :=
  h.filterMap fun
    | .pulled _ r => if r.id = id then some r else none
    | _ => none

/-- Between two pulls of a job, the first of them is marked. -/
def Exclusive (h : List DeskEntry) : Prop :=
  ∀ pre mid post i r j r', h = (pre ++ .pulled i r :: mid) ++ .pulled j r' :: post → r'.id = r.id →
    .marked i r.id ∈ mid

/-- The pulls of a job carry the attempts 1, 2, 3, .. -/
def Numbered (h : List DeskEntry) : Prop :=
  ∀ id k r, (pulls h id)[k]? = some r → r.attempt.val = k + 1

/-- They do so up to `bound`. -/
def NumberedUpTo (bound : Nat) (h : List DeskEntry) : Prop :=
  ∀ id k r, (pulls h id)[k]? = some r → k + 1 ≤ bound → r.attempt.val = k + 1

/-- A job is pulled within its budget of attempts. -/
def Budgeted (h : List DeskEntry) : Prop :=
  ∀ id job, .enqueued id job ∈ h → (pulls h id).length ≤ max 1 job.maxAttempts.val

/-- A report that retries only while attempts remain. -/
def Decides (r : JobRecord) : Mark → Prop
  | .failed _ (some _) => r.attempt.val < r.maxAttempts.val
  | _ => True

/-- Workers report as `dispatch_one` does. -/
def Deciding {S : JobStore} (d : Desk S) : DeskAction S.Env → Prop
  | .mark i m _ => ∀ r, d.held i = some r → Decides r m
  | _ => True

/-- The states of a new store and its callers. -/
abbrev DeskReachable (S : JobStore) : Desk S → Prop :=
  Reach Desk.step (· = Desk.new S) fun _ _ => True

/-- The same, where the workers report as `dispatch_one` does. -/
abbrev DecidingReachable (S : JobStore) : Desk S → Prop :=
  Reach Desk.step (· = Desk.new S) Deciding

/-- The providers of the crate. -/
inductive Shipped : JobStore → Prop
  | inMemory : Shipped InMemoryJobStore
  | sqlite (codec : Codec) : Shipped (SqliteJobStore codec)

/-! ## The in-memory provider -/

/-- A call that changes the in-memory store. -/
inductive StoreCall
  | enqueue (job : NewJob) (now : DateTime)
  | pullNext (queues : List String) (now : DateTime)
  | markCompleted (id : JobId)
  | markFailed (id : JobId) (error : String) (nextAttemptAt : Option DateTime)

def StoreCall.run (inner : InMemoryStoreInner) : StoreCall → Option InMemoryStoreInner
  | enqueue job now => some (inner.enqueue job now).2
  | pullNext queues now => some (inner.pullNext queues now).2
  | markCompleted id => some (inner.markCompleted id).2
  | markFailed id error nextAttemptAt => some (inner.markFailed id error nextAttemptAt).2

/-- Only a job that is `Running` is marked. -/
def StoreCall.marksRunning (inner : InMemoryStoreInner) : StoreCall → Prop
  | markCompleted id | markFailed id _ _ => ∃ r, inner.records id.val = some r ∧ r.status = .running
  | _ => True

/-- The states of an `InMemoryJobStore` whose callers mark only running jobs. -/
abbrev StoreReachable : InMemoryStoreInner → Prop :=
  Reach StoreCall.run (· = .empty) StoreCall.marksRunning

/-- The queues hold the ids of the jobs that wait, each once and in the queue
of its record. -/
structure Represents (inner : InMemoryStoreInner) : Prop where
  recorded : ∀ queue, ∀ id ∈ inner.queues queue, ∃ r, inner.records id = some r
  queued : ∀ id r, inner.records id = some r → r.status = .pending ∨ r.status = .retrying →
    (inner.queues r.queue).count id = 1 ∧ ∀ queue, queue ≠ r.queue → id ∉ inner.queues queue
  idle : ∀ id r, inner.records id = some r →
    r.status = .running ∨ r.status = .completed ∨ r.status = .dead → ∀ queue, id ∉ inner.queues queue

/-- The states of an `InMemoryJobStore`, whatever its callers mark. -/
abbrev CallReachable : InMemoryStoreInner → Prop :=
  Reach StoreCall.run (· = .empty) fun _ _ => True

/-- The queue has a job to hand out at `now`. -/
def Ready (inner : InMemoryStoreInner) (now : DateTime) (queue : String) : Prop :=
  ∃ id ∈ inner.queues queue, ∃ r, inner.records id = some r ∧ InMemoryStoreInner.eligible now r = true

/-- At most one of the queues has a job to hand out. -/
def OneReady (inner : InMemoryStoreInner) (now : DateTime) (queues : List String) : Prop :=
  ∀ q ∈ queues, ∀ q' ∈ queues, Ready inner now q → Ready inner now q' → q = q'

/-- What a pull returns does not depend on the order of the queue names. -/
def OrderFree (pullNext : List String → Except JobsError (Option JobRecord)) (queues : List String) : Prop :=
  ∀ queues', queues'.Perm queues → pullNext queues' = pullNext queues

end WalaStack.Spec.Jobs
