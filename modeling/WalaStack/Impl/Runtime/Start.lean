import WalaStack.Impl.Runtime.Plugins

/-!
# Building and starting a runtime

The calls of a `RuntimeBuilder` chain, `Runtime::start` of
`walastack-runtime/src/runtime.rs`, and the chain of `App::run` of
`walastack-app/src/lib.rs`.
-/

namespace WalaStack.Impl.Runtime

variable {TypeId : Type} {Provider : TypeId → Type} {S : Type}

/-- A call of the builder chain that adds services, or capabilities for the
plugins. -/
inductive BuilderCall (TypeId : Type) (Provider : TypeId → Type) (S : Type)
  /-- `with`, `with_supervised` and `with_arc` -/
  | service (service : S) (policy : RestartPolicy)
  /-- `with_plugin` and `with_plugin_arc` -/
  | plugin (plugin : Plugin TypeId Provider S)
  /-- `with_capability` and `with_default_capability` -/
  | capability (c : TypeId) (name : String) (provider : Provider c)

namespace RuntimeBuilder

variable [DecidableEq TypeId]

def call (b : RuntimeBuilder TypeId Provider S) : BuilderCall TypeId Provider S → RuntimeBuilder TypeId Provider S
  | .service service policy => b.withSupervised service policy
  | .plugin plugin => b.withPlugin plugin
  | .capability c name provider => b.withCapability c name provider

/-- `Runtime::builder()`, and the calls in their order. -/
def chain (calls : List (BuilderCall TypeId Provider S)) : RuntimeBuilder TypeId Provider S :=
  calls.foldl call .new

end RuntimeBuilder

/-- `RuntimeError::ServiceStart` -/
structure StartError (S : Type) where
  service : S
  source : String
deriving DecidableEq, Repr

/-- The loop of `Runtime::start`: the services on which `Service::start` is
called, and the error of the first that fails. `outcomes` are the results of
these calls. -/
def startServices : List (S × RestartPolicy) → (Nat → Except String Unit) →
    List (S × RestartPolicy) × Except (StartError S) Unit
  | [], _ => ([], .ok ())
  | service :: services, outcomes =>
    match outcomes 0 with
    | .ok () =>
      let (started, result) := startServices services fun n => outcomes (n + 1)
      (service :: started, result)
    | .error source => ([service], .error ⟨service.1, source⟩)

/-- `Runtime::start` -/
def BuiltRuntime.start (rt : BuiltRuntime TypeId Provider S) (outcomes : Nat → Except String Unit) :
    List (S × RestartPolicy) × Except (StartError S) Unit :=
  startServices rt.services outcomes

/-- The chain of `App::run`: the app's plugins, and the HTTP service. -/
def appChain (plugins : List (Plugin TypeId Provider S)) (http : S) : List (BuilderCall TypeId Provider S) :=
  plugins.map .plugin ++ [.service http .oneShot]

end WalaStack.Impl.Runtime
