import WalaStack.Impl.Runtime.Capabilities
import WalaStack.Impl.Runtime.Supervision

/-!
# Plugins and the builder

`walastack-runtime/src/plugins.rs`, and `RuntimeBuilder` of
`walastack-runtime/src/runtime.rs`: the hooks that plugins run on the
registries, the validation of the capabilities that they require, and `build`.

A hook is any function on the registry that it is given. `S` are the services.
-/

namespace WalaStack.Impl.Runtime

open WalaStack.Rust

variable {TypeId : Type} {Provider : TypeId → Type} {S : Type}

/-! ## Requirements -/

/-- A capability that must be registered for a plugin to operate: under the
name, or under any where there is none. -/
structure CapabilityRequirement (TypeId : Type) where
  typeId : TypeId
  name : Option String
  description : String
deriving DecidableEq, Repr

namespace CapabilityRequirement

/-- `CapabilityRequirement::any::<C>()`. `typeName` is
`std::any::type_name`. -/
def any (typeName : TypeId → String) (c : TypeId) : CapabilityRequirement TypeId := ⟨c, none, typeName c⟩

/-- `CapabilityRequirement::named::<C>(name)`. `quote` is the `Debug` text of a
string. -/
def named (typeName : TypeId → String) (quote : String → String) (c : TypeId) (name : String) :
    CapabilityRequirement TypeId :=
  ⟨c, some name, typeName c ++ " (provider " ++ quote name ++ ")"⟩

variable [DecidableEq TypeId]

def isSatisfiedBy (req : CapabilityRequirement TypeId) (caps : Capabilities TypeId Provider) : Bool :=
  match req.name with
  | none => caps.containsType req.typeId
  | some name => caps.containsTypedName req.typeId name

end CapabilityRequirement

/-! ## Plugins -/

/-- The services collected so far, with their policies. -/
abbrev ServicePlanner (S : Type) := List (S × RestartPolicy)

structure Plugin (TypeId : Type) (Provider : TypeId → Type) (S : Type) where
  name : String
  registerCapabilities : CapabilityRegistry TypeId Provider → CapabilityRegistry TypeId Provider
  registerServices : ServicePlanner S → ServicePlanner S
  requiredCapabilities : List (CapabilityRequirement TypeId)

/-- `PluginError::MissingRequirement` -/
structure PluginError where
  plugin : String
  requirement : String
deriving DecidableEq, Repr

namespace PluginManager

/-- The hooks of the plugins, in the order of their registration. -/
def applyAll (plugins : List (Plugin TypeId Provider S)) (capabilities : CapabilityRegistry TypeId Provider)
    (planner : ServicePlanner S) : CapabilityRegistry TypeId Provider × ServicePlanner S :=
  plugins.foldl (fun st plugin => (plugin.registerCapabilities st.1, plugin.registerServices st.2))
    (capabilities, planner)

variable [DecidableEq TypeId]

/-- The first requirement that is not met. -/
def validateRequirements (plugins : List (Plugin TypeId Provider S)) (caps : Capabilities TypeId Provider) :
    Except PluginError Unit :=
  plugins.forM fun plugin =>
    plugin.requiredCapabilities.forM fun req =>
      if req.isSatisfiedBy caps then pure () else throw ⟨plugin.name, req.description⟩

end PluginManager

/-! ## The builder -/

structure RuntimeBuilder (TypeId : Type) (Provider : TypeId → Type) (S : Type) where
  capabilities : CapabilityRegistry TypeId Provider
  services : List (S × RestartPolicy)
  plugins : List (Plugin TypeId Provider S)
  shutdownDeadline : Duration

/-- A runtime that has not been started. -/
structure BuiltRuntime (TypeId : Type) (Provider : TypeId → Type) (S : Type) where
  capabilities : Capabilities TypeId Provider
  services : List (S × RestartPolicy)
  shutdownDeadline : Duration

namespace RuntimeBuilder

/-- `RuntimeBuilder::new`, with `DEFAULT_SHUTDOWN_DEADLINE`. -/
def new : RuntimeBuilder TypeId Provider S := ⟨.new, [], [], .fromSecs 10⟩

def withSupervised (b : RuntimeBuilder TypeId Provider S) (service : S) (policy : RestartPolicy) :
    RuntimeBuilder TypeId Provider S :=
  { b with services := b.services ++ [(service, policy)] }

/-- `RuntimeBuilder::with` -/
def withService (b : RuntimeBuilder TypeId Provider S) (service : S) : RuntimeBuilder TypeId Provider S :=
  b.withSupervised service .oneShot

/-- `with_plugin` and `with_plugin_arc` -/
def withPlugin (b : RuntimeBuilder TypeId Provider S) (plugin : Plugin TypeId Provider S) :
    RuntimeBuilder TypeId Provider S :=
  { b with plugins := b.plugins ++ [plugin] }

def withShutdownDeadline (b : RuntimeBuilder TypeId Provider S) (deadline : Duration) :
    RuntimeBuilder TypeId Provider S :=
  { b with shutdownDeadline := deadline }

variable [DecidableEq TypeId]

def withCapability (b : RuntimeBuilder TypeId Provider S) (c : TypeId) (name : String) (provider : Provider c) :
    RuntimeBuilder TypeId Provider S :=
  { b with capabilities := (b.capabilities.register c name provider).1 }

def withDefaultCapability (b : RuntimeBuilder TypeId Provider S) (c : TypeId) (provider : Provider c) :
    RuntimeBuilder TypeId Provider S :=
  { b with capabilities := (b.capabilities.registerDefault c provider).1 }

/-- Applies the plugins, freezes the registry and validates the requirements;
an error is that of `RuntimeError::Plugin`. -/
def build (b : RuntimeBuilder TypeId Provider S) : Except PluginError (BuiltRuntime TypeId Provider S) := do
  let (registry, planner) := PluginManager.applyAll b.plugins b.capabilities []
  let services := b.services ++ planner
  let capabilities := registry.build
  PluginManager.validateRequirements b.plugins capabilities
  pure ⟨capabilities, services, b.shutdownDeadline⟩

end RuntimeBuilder

end WalaStack.Impl.Runtime
