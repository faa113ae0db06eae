import WalaStack.Impl.Runtime.Runtime
import WalaStack.Impl.Runtime.Start

/-!
# Running a runtime

`Runtime::run` of `walastack-runtime/src/runtime.rs`: `start`, then
`wait_for_shutdown` if that went well, and `shutdown_gracefully` in any case.
What it does between two awaits is one step. Everything else goes on at the
same time, as `Runtime.step` has it: time passes, the services and schedules
run, and those who hold clones of the event bus, of the supervision tree or of
the context do with them what they like.
-/

namespace WalaStack.Impl.Runtime

open WalaStack.Rust

/-- The error that `start_service` has returned. -/
def Child.refusal? (c : Child) : Option (StartError String) :=
  match c.watcher.phase, c.watcher.history.getLast? with
  | .refused, some (.resolved _ (.error source)) => some ⟨c.svc.name, source⟩
  | _, _ => none

/-- Where `run` is. -/
inductive RunPhase
  /-- It has not been polled. -/
  | built
  /-- `start` awaits a call of `start_service`, with the services after that. -/
  | starting (i : Nat) (rest : List Supervised)
  /-- It awaits the shutdown signal. -/
  | waiting
  /-- `shutdown_gracefully` awaits the drain. -/
  | draining (result : Except (StartError String) Unit)
  | returned (result : Except (StartError String) Unit)

/-- What happened, in order. -/
inductive RunEntry
  /-- `RuntimeStarting` is published, -/
  | starting
  /-- or `RuntimeStarted`. -/
  | started
  | runtime (e : RuntimeEntry)
deriving DecidableEq, Repr

/-- The drain of `shutdown_gracefully`: when it was called, and the handles that
it took out of the map. -/
structure DrainCall where
  since : Nat
  handles : List Nat

structure Run where
  runtime : Runtime
  services : List Supervised
  phase : RunPhase
  /-- Its calls of `start_service`, in order. -/
  calls : List Nat
  drain : Option DrainCall
  log : List RunEntry

inductive RunAction
  /-- What others do. -/
  | other (a : RuntimeAction)
  /-- The future is polled first. -/
  | begin
  /-- `start_service` returns `Ok`, -/
  | next
  /-- or its error. A drain takes the handles in some order. -/
  | refused (order : List Nat)
  /-- The shutdown signal has been raised. -/
  | signalled (order : List Nat)
  /-- The drain has returned. -/
  | stopped

namespace Run

/-- The services are called on a runtime that has been built. -/
def new (services : List Supervised) (now : Nat) (wall : DateTime) (shutdownDeadline : Duration) : Run :=
  ⟨.new ⟨now, false⟩ wall shutdownDeadline, services, .built, [], none, []⟩

def publish (r : Run) (e : RunEntry) : Run := { r with log := r.log ++ [e] }

/-- The runtime takes a step. -/
def onRuntime (r : Run) (a : RuntimeAction) : Option Run :=
  (r.runtime.step a).map fun rt =>
    { r with
      runtime := rt
      log := r.log ++ (rt.log.drop r.runtime.log.length).map .runtime }

/-- The head of the loop of `start`. -/
def startNext (r : Run) : List Supervised → Option Run
  | [] => some { r.publish .started with phase := .waiting }
  | svc :: rest =>
    (r.onRuntime (.tree (.startService svc))).map fun r' =>
      { r' with
        phase := .starting r.runtime.tree.next rest
        calls := r.calls ++ [r.runtime.tree.next] }

/-- `shutdown_gracefully` up to the await of the drain. -/
def shutdownGracefully (r : Run) (order : List Nat) (result : Except (StartError String) Unit) : Option Run :=
  (r.onRuntime (.shutdownGracefully order)).map fun r' =>
    { r' with
      phase := .draining result
      drain := some ⟨r.runtime.tree.kernel.now, order⟩ }

/-- What only `run` does, since it owns the runtime: to shut it down, and to
drop its call of `start_service`. -/
def owns (r : Run) : RuntimeAction → Bool
  | .shutdownGracefully _ | .stopped => true
  | .tree (.abandon i) =>
    match r.phase with
    | .starting j _ => i = j
    | _ => false
  | _ => false

def step (r : Run) : RunAction → Option Run
  | .other a => if r.owns a then none else r.onRuntime a
  | .begin =>
    match r.phase with
    | .built => (r.publish .starting).startNext r.services
    | _ => none
  | .next =>
    match r.phase with
    | .starting i rest => if (r.runtime.tree.calls i).any Child.inserted then r.startNext rest else none
    | _ => none
  | .refused order =>
    match r.phase with
    | .starting i _ =>
      match (r.runtime.tree.calls i).bind Child.refusal? with
      | some e => r.shutdownGracefully order (.error e)
      | none => none
    | _ => none
  | .signalled order =>
    match r.phase with
    | .waiting => if r.runtime.tree.kernel.shutdown then r.shutdownGracefully order (.ok ()) else none
    | _ => none
  | .stopped =>
    match r.phase with
    | .draining result => (r.onRuntime .stopped).map fun r' => { r' with phase := .returned result }
    | _ => none

end Run

end WalaStack.Impl.Runtime
