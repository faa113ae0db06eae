import WalaStack.Impl.Jobs.Worker
import WalaStack.Impl.Runtime.Plugins

/-!
# `JobsPlugin` and `jobs::enqueue`

What `JobsPlugin` of `walastack-jobs/src/lib.rs` registers, and the helper
that enqueues a job with what the kernel's context has.
-/

namespace WalaStack.Impl.Jobs

open WalaStack.Rust WalaStack.Impl.Runtime

/-! ## Configuration -/

namespace JobsConfig

/-- `Default::default()` -/
def default : JobsConfig where
  workerCount := 4
  queues := ["default"]
  defaultQueue := "default"
  defaultMaxAttempts := 3
  defaultBackoff := .exponential (.fromSecs 1) 2 (.fromSecs 300)
  pollInterval := .fromNanos 500000000 (by decide)

def withQueues (config : JobsConfig) (queues : List String) : JobsConfig := { config with queues }

end JobsConfig

/-! ## The plugin -/

variable {TypeId : Type} {Provider : TypeId → Type}

/-- `impl Plugin for JobsPlugin`; a service is the worker's name. `jobStore` is
the type id of `dyn JobStore`. -/
def JobsPlugin.plugin (config : JobsConfig) (typeName : TypeId → String) (jobStore : TypeId) :
    Plugin TypeId Provider String where
  name := "jobs"
  registerCapabilities registry := registry
  registerServices planner :=
    planner ++ (List.range config.workerCount.val).map fun i => ((workerService i).name, (workerService i).policy)
  requiredCapabilities := [.any typeName jobStore]

/-! ## Enqueueing -/

/-- What `jobs::enqueue` reads of the context and changes in it. -/
structure JobsContext (S : JobStore) where
  /-- `ctx.capability::<dyn JobStore>()` -/
  store : Option S.State
  /-- `ctx.resource::<JobsConfig>()` -/
  config : Option JobsConfig
  events : List JobEvent

/-- `jobs::enqueue`, for a job of this name and metadata, with what
`serde_json::to_value` makes of it. `storeNow` is the clock that the store
reads. -/
def enqueue {S : JobStore} (ctx : JobsContext S) (metadata : JobMetadata) (name : JobName)
    (payload : Except String Json.Value) (now storeNow : DateTime) (env : S.Env) :
    Except JobsError JobId × JobsContext S :=
  match ctx.store, ctx.config, payload with
  | none, _, _ => (.error (.other "JobStore capability missing"), ctx)
  | some _, none, _ => (.error (.other "JobsConfig resource missing"), ctx)
  | some _, some _, .error e => (.error (.serialization e), ctx)
  | some store, some config, .ok payload =>
    let job := stage config metadata name payload now
    let r := S.enqueue job storeNow env store
    (r.1, { ctx with store := some r.2, events := ctx.events ++ announce job r.1 })

end WalaStack.Impl.Jobs
