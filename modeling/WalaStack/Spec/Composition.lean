import WalaStack.Impl.Runtime.Plugins

/-!
# Plugins composed

For plugins whose hooks register fixed providers, without a look at what is
there: the builder and the plugins come to one list of registrations, and
`ComposesExactly` says what `build` makes of it.
-/

namespace WalaStack.Spec.Capabilities

open WalaStack.Impl.Runtime

variable {TypeId : Type} {Provider : TypeId → Type} {S : Type}

/-- A provider for a capability under a name. -/
abbrev Registration (TypeId : Type) (Provider : TypeId → Type) := Σ c : TypeId, String × Provider c

/-- The provider, for lookups of `c` under the name. -/
def provides [DecidableEq TypeId] (r : Registration TypeId Provider) (c : TypeId) (name : String) :
    Option (Provider c) :=
  if h : r.1 = c then if r.2.1 = name then some (h ▸ r.2.2) else none else none

/-- The provider registered last for `c` under the name. -/
def lastRegistered [DecidableEq TypeId] (c : TypeId) (name : String) :
    List (Registration TypeId Provider) → Option (Provider c)
  | [] => none
  | r :: regs => (lastRegistered c name regs).or (provides r c name)

/-- The requirement's key occurs among the registrations. -/
def Met (regs : List (Registration TypeId Provider)) (req : CapabilityRequirement TypeId) : Prop :=
  ∃ r ∈ regs, r.1 = req.typeId ∧ ∀ name, req.name = some name → r.2.1 = name

def registerAll [DecidableEq TypeId] (reg : CapabilityRegistry TypeId Provider)
    (regs : List (Registration TypeId Provider)) : CapabilityRegistry TypeId Provider :=
  regs.foldl (fun reg r => (reg.register r.1 r.2.1 r.2.2).1) reg

/-- A plugin with the providers that its hook registers. -/
structure FixedPlugin (TypeId : Type) (Provider : TypeId → Type) (S : Type) [DecidableEq TypeId] extends
    Plugin TypeId Provider S where
  registrations : List (Registration TypeId Provider)
  registers : ∀ reg, registerCapabilities reg = registerAll reg registrations

variable [DecidableEq TypeId]

/-- A builder with registrations of its own and the plugins. -/
structure Composition (TypeId : Type) (Provider : TypeId → Type) (S : Type) [DecidableEq TypeId] where
  own : List (Registration TypeId Provider)
  services : List (S × RestartPolicy)
  plugins : List (FixedPlugin TypeId Provider S)
  shutdownDeadline : WalaStack.Rust.Duration

namespace Composition

def builder (x : Composition TypeId Provider S) : RuntimeBuilder TypeId Provider S :=
  ⟨registerAll .new x.own, x.services, x.plugins.map FixedPlugin.toPlugin, x.shutdownDeadline⟩

/-- All registrations, in their order. -/
def registered (x : Composition TypeId Provider S) : List (Registration TypeId Provider) :=
  x.own ++ x.plugins.flatMap FixedPlugin.registrations

/-- `build` returns `Ok`. -/
def Builds (x : Composition TypeId Provider S) : Prop := ∃ rt, x.builder.build = .ok rt

/-- `e` is about the first requirement, plugin by plugin, that is not met. -/
def FirstUnmet (x : Composition TypeId Provider S) (e : PluginError) : Prop :=
  ∃ before plugin after met req rest, x.plugins = before ++ plugin :: after ∧
    plugin.requiredCapabilities = met ++ req :: rest ∧
    (∀ p ∈ before, ∀ r ∈ p.requiredCapabilities, Met x.registered r) ∧ (∀ r ∈ met, Met x.registered r) ∧
    ¬ Met x.registered req ∧ e = ⟨plugin.name, req.description⟩

end Composition

structure ComposesExactly (x : Composition TypeId Provider S) : Prop where
  builds : x.Builds ↔ ∀ plugin ∈ x.plugins, ∀ req ∈ plugin.requiredCapabilities, Met x.registered req
  /-- The order of the plugins does not matter to whether it builds. -/
  order : ∀ plugins, plugins.Perm x.plugins → (({ x with plugins := plugins } : Composition _ _ _).Builds ↔ x.Builds)
  error : ∀ e, x.builder.build = .error e ↔ x.FirstUnmet e
  lookup : ∀ rt, x.builder.build = .ok rt →
    ∀ c name, rt.capabilities.getNamed c name = lastRegistered c name x.registered

end WalaStack.Spec.Capabilities
