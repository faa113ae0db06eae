import WalaStack.Impl.Runtime.Start

/-!
# The order of the builder chain

The services are `introduced` by the calls of the chain, a plugin's where the
plugin is, in the order in which it adds them. A service that is to see the
others start is put first in the chain.
-/

namespace WalaStack.Spec.Runtime

open WalaStack.Impl.Runtime

variable {TypeId : Type} {Provider : TypeId → Type} {S : Type}

/-- The plugin adds services to those that are planned already. -/
def AddsServices (plugin : Plugin TypeId Provider S) : Prop :=
  ∀ planner, ∃ added, plugin.registerServices planner = planner ++ added

/-- The services planned by the plugins of a chain. -/
def planned (calls : List (BuilderCall TypeId Provider S)) : ServicePlanner S :=
  calls.foldl (fun planner call =>
    match call with
    | .plugin plugin => plugin.registerServices planner
    | .service _ _ | .capability _ _ _ => planner) []

/-- What a call introduces after the calls `before`. -/
def introduces (before : List (BuilderCall TypeId Provider S)) :
    BuilderCall TypeId Provider S → List (S × RestartPolicy)
  | .service service policy => [(service, policy)]
  | .plugin plugin => (plugin.registerServices (planned before)).drop (planned before).length
  | .capability _ _ _ => []

/-- The services in the order in which the chain introduces them; `before` are
the calls before it. -/
def introducedAfter : List (BuilderCall TypeId Provider S) → List (BuilderCall TypeId Provider S) →
    List (S × RestartPolicy)
  | _, [] => []
  | before, call :: calls => introduces before call ++ introducedAfter (before ++ [call]) calls

def introduced (calls : List (BuilderCall TypeId Provider S)) : List (S × RestartPolicy) := introducedAfter [] calls

/-- `Service::start` is called on the services in this order, as far as the
start goes. -/
def StartsInOrder (rt : BuiltRuntime TypeId Provider S) (calls : List (BuilderCall TypeId Provider S)) : Prop :=
  ∀ outcomes, (rt.start outcomes).1 <+: introduced calls

/-- No plugin before a service that the chain adds itself adds a service. -/
def OwnServicesFirst (calls : List (BuilderCall TypeId Provider S)) : Prop :=
  ∀ pre service policy post, calls = pre ++ .service service policy :: post → planned pre = []

end WalaStack.Spec.Runtime
