import WalaStack.Impl.Jobs.Desk
import WalaStack.Impl.Runtime.Supervision

/-!
# The worker pool

`JobsPlugin` of `walastack-jobs/src/lib.rs`: `worker_count` workers, each
under its own watcher, with `worker_loop` and `dispatch_one` as the root task
over one store. A step of the pool is what one party does between two awaits;
a call of the store is one step with the code that follows it.

What a handler does with its payload is an action, `finish`.
-/

namespace WalaStack.Impl.Jobs

open WalaStack.Rust WalaStack.Impl.Runtime

/-! ## Configuration -/

/-- Per-job configuration; `none` takes the default of `JobsConfig`. -/
structure JobMetadata where
  queue : Option String
  maxAttempts : Option U32
  timeout : Option Duration
  backoff : Option Backoff

structure JobsConfig where
  workerCount : U32
  queues : List String
  defaultQueue : String
  defaultMaxAttempts : U32
  defaultBackoff : Backoff
  pollInterval : Duration

/-- `HandlerEntry`; its `run` is an action of the pool. -/
structure HandlerEntry where
  metadata : JobMetadata

/-- `JobsDispatcher`: the registered handlers. -/
abbrev JobsDispatcher := JobName → Option HandlerEntry

/-- The record that `jobs::enqueue` stages. -/
def stage (config : JobsConfig) (metadata : JobMetadata) (name : JobName) (payload : Json.Value)
    (now : DateTime) : NewJob where
  name := name
  payload := payload
  queue := metadata.queue.getD config.defaultQueue
  maxAttempts := metadata.maxAttempts.getD config.defaultMaxAttempts
  scheduledAt := now

/-- The policy of `JobsPlugin::register_services`: effectively unlimited. -/
def workerPolicy : RestartPolicy :=
  .onFailure U32.max (.linear (Duration.fromSecs 1) Duration.zero)

def workerService (i : Nat) : Supervised := ⟨"jobs-worker-" ++ toString i, workerPolicy⟩

/-! ## Events -/

inductive JobEvent
  /-- `JobEnqueued` -/
  | enqueued (id : JobId) (name : JobName) (queue : String) (scheduledAt : DateTime)
  /-- `JobStarted` -/
  | started (id : JobId) (name : JobName) (attempt : U32)
  /-- `JobCompleted`, with its duration in nanoseconds. -/
  | completed (id : JobId) (name : JobName) (attempt : U32) (duration : Nat)
  /-- `JobFailed` -/
  | failed (id : JobId) (name : JobName) (attempt : U32) (error : String)
  /-- `JobRetrying` -/
  | retrying (id : JobId) (name : JobName) (nextAttempt : U32) (nextAttemptAt : DateTime)
  /-- `JobDead` -/
  | dead (id : JobId) (name : JobName) (totalAttempts : U32)

/-- What `jobs::enqueue` publishes of the job that it staged. -/
def announce (job : NewJob) : Except JobsError JobId → List JobEvent
  | .ok id => [.enqueued id job.name job.queue job.scheduledAt]
  | .error _ => []

/-! ## One dispatch -/

/-- The await that a worker's task is at. -/
inductive WorkerTask
  /-- The select on the shutdown signal and `pull_next`. -/
  | polling
  /-- The select on the signal and the poll interval, which ends at `wake`. -/
  | sleeping (wake : Nat)
  /-- `dispatch_one` awaits the handler, under its timeout. -/
  | running (entry : HandlerEntry) (startedAt : Nat)
  /-- `dispatch_one` awaits `mark_completed` or `mark_failed`. -/
  | marking (m : Mark)

/-- `dispatch_one` up to its first await. -/
def dispatch (dispatcher : JobsDispatcher) (now : Nat) (r : JobRecord) : List JobEvent × WorkerTask :=
  match dispatcher r.name with
  | none =>
    ([.failed r.id r.name r.attempt ("no handler registered for job '" ++ r.name.val ++ "'"),
      .dead r.id r.name r.attempt],
      .marking (.failed "no handler registered" none))
  | some entry => ([.started r.id r.name r.attempt], .running entry now)

/-- How the handler's future ends. -/
inductive Outcome
  | returned (result : Except String Unit)
  /-- The elapse of the timeout. -/
  | timedOut
  | panicked (message : String)

/-- `Utc::now() + delay`, by way of `chrono::Duration::from_std`: `none` where
the addition panics. -/
def nextAttemptAt (now : DateTime) (delay : Duration) : Option DateTime :=
  now.add ((TimeDelta.fromStd delay).getD TimeDelta.oneSecond)

/-- The delay before the next attempt. -/
def retryDelay (config : JobsConfig) (entry : HandlerEntry) (subsecNanos : Nat) (r : JobRecord) : Duration :=
  (entry.metadata.backoff.getD config.defaultBackoff).delayFor subsecNanos r.attempt.val

/-- `dispatch_one` from the handler's result to the call of the store: the
events, and the call or the message of a panic. -/
def conclude (config : JobsConfig) (entry : HandlerEntry) (elapsed : Nat) (now : DateTime) (subsecNanos : Nat)
    (r : JobRecord) : Except String Unit → List JobEvent × Except String Mark
  | .ok () => ([.completed r.id r.name r.attempt elapsed], .ok .completed)
  | .error error =>
    if r.maxAttempts.val ≤ r.attempt.val then
      ([.failed r.id r.name r.attempt error, .dead r.id r.name r.attempt], .ok (.failed error none))
    else
      match nextAttemptAt now (retryDelay config entry subsecNanos r) with
      | none => ([.failed r.id r.name r.attempt error], .error "`DateTime + TimeDelta` overflowed")
      | some at_ =>
        ([.failed r.id r.name r.attempt error, .retrying r.id r.name r.attempt.saturatingSucc at_],
          .ok (.failed error (some at_)))

/-- The handler's result: `none` for a timeout that has not elapsed. -/
def Outcome.result (entry : HandlerEntry) (elapsed : Nat) (r : JobRecord) :
    Outcome → Option (Except String (Except String Unit))
  | .returned result => some (.ok result)
  | .timedOut =>
    match entry.metadata.timeout with
    | some timeout =>
      if timeout.nanos ≤ elapsed then
        some (.ok (.error ("job '" ++ r.name.val ++ "' exceeded timeout of " ++ timeout.debug)))
      else none
    | none => none
  | .panicked message => some (.error message)

/-! ## The pool -/

structure WorkerState where
  watcher : Watcher
  /-- `none` when no root task runs. -/
  task : Option WorkerTask

structure Pool (S : JobStore) where
  kernel : Kernel
  desk : Desk S
  workers : Nat → WorkerState
  events : List JobEvent

inductive PoolAction (Env : Type)
  | tick (d : Nat)
  | signal
  /-- `JobStore::enqueue`, by anyone. -/
  | enqueue (job : NewJob) (now : DateTime) (env : Env)
  /-- `jobs::enqueue`, with the payload serialized. -/
  | submit (metadata : JobMetadata) (name : JobName) (payload : Json.Value) (now : DateTime) (env : Env)
  /-- A step of a worker's `start_service` or watcher. -/
  | watch (i : Nat) (a : WatcherAction)
  /-- The branch `res = store.pull_next(..)`. -/
  | pull (i : Nat) (now : DateTime) (env : Env)
  /-- A worker sees the shutdown signal. -/
  | leave (i : Nat)
  /-- The branch `() = shutdown.wait()`, beside a `pull_next` that has run. -/
  | abandon (i : Nat) (now : DateTime) (env : Env)
  /-- The branch `() = tokio::time::sleep(config.poll_interval)`. -/
  | slept (i : Nat)
  /-- The handler's future ends. -/
  | finish (i : Nat) (outcome : Outcome) (now : DateTime) (subsecNanos : Nat)
  /-- The call of `mark_completed` or `mark_failed` returns. -/
  | mark (i : Nat) (env : Env)

namespace Pool

variable {S : JobStore}

def init (S : JobStore) (k : Kernel) : Pool S := ⟨k, .new S, fun _ => ⟨.init k, none⟩, []⟩

def setWorker (s : Pool S) (i : Nat) (w : WorkerState) : Pool S :=
  { s with workers := Function.update s.workers i w }

def setTask (s : Pool S) (i : Nat) (task : WorkerTask) : Pool S :=
  s.setWorker i { s.workers i with task := some task }

def publish (s : Pool S) (es : List JobEvent) : Pool S := { s with events := s.events ++ es }

/-- The root task of worker `i` ends, and drops the record it holds. -/
def exits (s : Pool S) (i : Nat) (result : JoinResult) : Option (Pool S) :=
  ((s.workers i).watcher.step (workerService i) s.kernel (.exits result)).bind fun w =>
    (s.desk.step (.crash i)).map fun desk => { s with desk := desk }.setWorker i ⟨w, none⟩

/-- What a step of the watcher does to the root task: a start that succeeds
has spawned it, and shutdown aborts it. -/
def onWatch (s : Pool S) (i : Nat) (w : Watcher) : WatcherAction → Option (Pool S)
  | .started (.ok ()) => some (s.setWorker i ⟨w, some .polling⟩)
  | .shutdown => (s.desk.step (.crash i)).map fun desk => { s with desk := desk }.setWorker i ⟨w, none⟩
  | _ => some (s.setWorker i { s.workers i with watcher := w })

/-- A step of worker `i`. -/
def workerStep (config : JobsConfig) (dispatcher : JobsDispatcher) (s : Pool S) (i : Nat) :
    PoolAction S.Env → Option (Pool S)
  | .watch _ a =>
    let w := (s.workers i).watcher
    if w.owns a then
      (w.step (workerService i) s.kernel a).bind fun w => s.onWatch i w a
    else none
  | .pull _ now env =>
    match (s.workers i).task with
    | some .polling =>
      (s.desk.step (.pull i config.queues now env)).map fun desk =>
        let s := { s with desk := desk }
        match desk.held i with
        | some r => (s.publish (dispatch dispatcher s.kernel.now r).1).setTask i (dispatch dispatcher s.kernel.now r).2
        | none => s.setTask i (.sleeping (s.kernel.now + config.pollInterval.nanos))
    | _ => none
  | .leave _ =>
    match (s.workers i).task with
    | some .polling | some (.sleeping _) => if s.kernel.shutdown then s.exits i .ok else none
    | _ => none
  | .abandon _ now env =>
    match (s.workers i).task with
    | some .polling =>
      if s.kernel.shutdown then
        (s.desk.step (.pull i config.queues now env)).bind fun desk => { s with desk := desk }.exits i .ok
      else none
    | _ => none
  | .slept _ =>
    match (s.workers i).task with
    | some (.sleeping wake) => if wake ≤ s.kernel.now then some (s.setTask i .polling) else none
    | _ => none
  | .finish _ outcome now subsecNanos =>
    match (s.workers i).task, s.desk.held i with
    | some (.running entry startedAt), some r =>
      match outcome.result entry (s.kernel.now - startedAt) r with
      | none => none
      | some (.error message) => s.exits i (.panic message)
      | some (.ok result) =>
        let concluded := conclude config entry (s.kernel.now - startedAt) now subsecNanos r result
        match concluded.2 with
        | .ok m => some ((s.publish concluded.1).setTask i (.marking m))
        | .error message => (s.publish concluded.1).exits i (.panic message)
    | _, _ => none
  | .mark _ env =>
    match (s.workers i).task with
    | some (.marking m) =>
      (s.desk.step (.mark i m env)).map fun desk => { s with desk := desk }.setTask i .polling
    | _ => none
  | _ => none

/-- The worker that an action is a step of. -/
def worker? {Env : Type} : PoolAction Env → Option Nat
  | .watch i _ | .pull i _ _ | .leave i | .abandon i _ _ | .slept i | .finish i _ _ _ | .mark i _ => some i
  | _ => none

def step (config : JobsConfig) (dispatcher : JobsDispatcher) (s : Pool S) (a : PoolAction S.Env) :
    Option (Pool S) :=
  match a, worker? a with
  | .tick d, _ => some { s with kernel := { s.kernel with now := s.kernel.now + d } }
  | .signal, _ => some { s with kernel := { s.kernel with shutdown := true } }
  | .enqueue job now env, _ => (s.desk.step (.enqueue job now env)).map fun desk => { s with desk := desk }
  | .submit metadata name payload now env, _ =>
    let job := stage config metadata name payload now
    (s.desk.step (.enqueue job now env)).map fun desk =>
      { s with desk := desk }.publish (announce job (s.desk.enqueue job now env).1)
  | a, some i => if i < config.workerCount.val then s.workerStep config dispatcher i a else none
  | _, none => none

end Pool

end WalaStack.Impl.Jobs
