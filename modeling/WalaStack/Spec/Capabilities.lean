import WalaStack.Impl.Runtime.Plugins

/-!
# Required capabilities

What a plugin that declares `CapabilityRequirement::any` may expect of a
runtime that was built: `FailFast` is that the lookups of its services
succeed. Lookups count, so it is about those after any others.
-/

namespace WalaStack.Spec.Capabilities

open WalaStack.Rust WalaStack.Impl.Runtime

variable {TypeId : Type} {Provider : TypeId → Type} {S : Type} [DecidableEq TypeId]

/-- The view after the capabilities `cs` were looked up. -/
def afterLookups (caps : Capabilities TypeId Provider) (cs : List TypeId) : Capabilities TypeId Provider :=
  cs.foldl (fun caps c => (caps.get c).2) caps

/-- Every lookup of `c` finds a provider. -/
def Resolves (caps : Capabilities TypeId Provider) (c : TypeId) : Prop :=
  ∀ earlier, ((afterLookups caps earlier).get c).1.isSome = true

/-- No lookup of `c` does. -/
def Missing (caps : Capabilities TypeId Provider) (c : TypeId) : Prop :=
  ∀ earlier, ((afterLookups caps earlier).get c).1 = none

/-- A runtime that was built resolves the capabilities that its plugins
require. -/
def FailFast (typeName : TypeId → String) (b : RuntimeBuilder TypeId Provider S) : Prop :=
  ∀ rt, b.build = .ok rt → ∀ plugin ∈ b.plugins, ∀ c, .any typeName c ∈ plugin.requiredCapabilities →
    Resolves rt.capabilities c

/-- The strategy of `c` leads to registered providers only. -/
def SelectsRegistered (caps : Capabilities TypeId Provider) (c : TypeId) : Prop :=
  match caps.strategy c with
  | .single => caps.containsTypedName c defaultName = true
  | .fallback chain => ∃ name ∈ chain, caps.containsTypedName c name = true
  | .weightedRoundRobin weights =>
    totalWeight weights ≠ 0 ∧ ∀ e ∈ weights, e.2.val ≠ 0 → caps.containsTypedName c e.1 = true

/-- The strategy of `c` leads to no registered provider. -/
def SelectsNone (caps : Capabilities TypeId Provider) (c : TypeId) : Prop :=
  match caps.strategy c with
  | .single => caps.containsTypedName c defaultName = false
  | .fallback chain => ∀ name ∈ chain, caps.containsTypedName c name = false
  | .weightedRoundRobin weights =>
    totalWeight weights = 0 ∨ ∀ e ∈ weights, e.2.val ≠ 0 → caps.containsTypedName c e.1 = false

end WalaStack.Spec.Capabilities
