import WalaStack.Impl.Runtime.Run

/-!
# A run from its start to its end

What those who watch a runtime rely on, whatever else goes on at the same
time: the services are started one after the other and in their order,
`RuntimeStarted` is published when all of them have been, and when `run`
returns, with the error of the service that was not, `RuntimeStopped` has been
published and the watchers been waited for. When `RuntimeStopping` is published
is not said: `EventBus::shutdown` reads the signal, raises it and publishes the
event in three steps, which are one step of `Runtime`.
-/

namespace WalaStack.Spec.Runtime

open WalaStack.Rust WalaStack.Impl.Runtime

/-- The events of the kernel, `RuntimeStopping` apart. -/
def isAnnouncement : RunEntry → Bool
  | .starting | .started | .runtime .stopped => true
  | .runtime _ => false

/-- All services have been started. -/
def AllStarted (services : List Supervised) (r : Run) : Prop :=
  r.calls.length = services.length ∧ ∀ i ∈ r.calls, ∃ c, r.runtime.tree.calls i = some c ∧ c.inserted = true

/-- A watcher is left to itself when the deadline has passed. -/
def Awaited (r : Run) (since i : Nat) : Prop :=
  r.runtime.tree.hasFinished i = true ∨ since + r.runtime.shutdownDeadline.nanos ≤ r.runtime.tree.kernel.now

structure Returned (services : List Supervised) (r : Run) (result : Except (StartError String) Unit) : Prop where
  stopped : .runtime .stopped ∈ r.log
  ok : result = .ok () → .started ∈ r.log
  /-- The error is that of the service that was started last. -/
  error : ∀ e, result = .error e → .started ∉ r.log ∧
    ∃ i c, r.calls.getLast? = some i ∧ r.runtime.tree.calls i = some c ∧ c.refusal? = some e
  /-- Those that were in the tree have been waited for. -/
  awaited : ∃ d, r.drain = some d ∧ ∀ i ∈ d.handles, Awaited r d.since i

structure RunsThrough (services : List Supervised) (r : Run) : Prop where
  /-- The calls are of the services in their order, and each but the last has
  returned `Ok`. -/
  inTurn : ∀ n i, r.calls[n]? = some i → ∃ c, r.runtime.tree.calls i = some c ∧ services[n]? = some c.svc ∧
    (n + 1 < r.calls.length → c.inserted = true)
  announced : r.log.filter isAnnouncement <+: [.starting, .started, .runtime .stopped] ∨
    r.log.filter isAnnouncement <+: [.starting, .runtime .stopped]
  started : .started ∈ r.log → AllStarted services r
  returned : ∀ result, r.phase = .returned result → Returned services r result

/-- The others start no service on the tree, and take no watcher from it. -/
def LeavesTree (_ : Run) : RunAction → Prop
  | .other (.tree (.startService _)) | .other (.tree (.drain _ _)) | .other (.tree .shutdownNow) => False
  | _ => True

/-- When `run` has returned, the watcher of every service that it has started
has been waited for. -/
def AwaitsAll (r : Run) : Prop :=
  ∀ result, r.phase = .returned result → ∃ d, r.drain = some d ∧ ∀ i ∈ r.calls, ∀ c,
    r.runtime.tree.calls i = some c → c.inserted = true → Awaited r d.since i

end WalaStack.Spec.Runtime
