import Mathlib.Data.List.AList
import WalaStack.Rust.Num

/-!
# Capabilities

`walastack-runtime/src/capabilities.rs`: the registry of named providers, the
selection strategies and the frozen view on which capabilities are looked up.

`TypeId` are the ids of the contracts, `Provider c` the values that an `Arc`
of the contract `c` can hold. A provider is stored erased, under the id of the
contract at which it was registered, and `retrieve_provider` downcasts it to
that contract again: the buckets are typed by their keys here, so that there
is no downcast that could fail.
-/

namespace WalaStack.Impl.Runtime

open WalaStack.Rust

/-- `DEFAULT_NAME` -/
def defaultName : String := "default"

/-- How a capability picks among its providers when resolved by `get`. -/
inductive SelectionStrategy
  | single
  | fallback (chain : List String)
  | weightedRoundRobin (weights : List (String × U32))
deriving DecidableEq, Repr

/-- `matches!(strategy, SelectionStrategy::WeightedRoundRobin(_))` -/
def SelectionStrategy.isWeighted : SelectionStrategy → Bool
  | weightedRoundRobin _ => true
  | _ => false

/-- The providers of one capability, by name. -/
abbrev Bucket (P : Type) := AList fun _ : String => P

section

variable (TypeId : Type) (Provider : TypeId → Type)

/-- The mutable registry of the `Configure` phase. -/
structure CapabilityRegistry where
  providers : AList fun c : TypeId => Bucket (Provider c)
  strategies : AList fun _ : TypeId => SelectionStrategy

/-- The frozen view. Its clones share the counters of `rotation`, one `usize`
for each weighted capability. -/
structure Capabilities where
  providers : AList fun c : TypeId => Bucket (Provider c)
  strategies : AList fun _ : TypeId => SelectionStrategy
  rotation : AList fun _ : TypeId => Nat

end

variable {TypeId : Type} {Provider : TypeId → Type}

/-! ## The registry -/

namespace CapabilityRegistry

def new : CapabilityRegistry TypeId Provider := ⟨∅, ∅⟩

variable [DecidableEq TypeId]

/-- Registers a provider, and returns the one it replaces. -/
def register (reg : CapabilityRegistry TypeId Provider) (c : TypeId) (name : String) (provider : Provider c) :
    CapabilityRegistry TypeId Provider × Option (Provider c) :=
  let bucket := (reg.providers.lookup c).getD ∅
  ({ reg with providers := reg.providers.insert c (bucket.insert name provider) }, bucket.lookup name)

def registerDefault (reg : CapabilityRegistry TypeId Provider) (c : TypeId) (provider : Provider c) :
    CapabilityRegistry TypeId Provider × Option (Provider c) :=
  reg.register c defaultName provider

def setStrategy (reg : CapabilityRegistry TypeId Provider) (c : TypeId) (strategy : SelectionStrategy) :
    CapabilityRegistry TypeId Provider :=
  { reg with strategies := reg.strategies.insert c strategy }

/-- The counters of the weighted capabilities, at zero. -/
def rotation (reg : CapabilityRegistry TypeId Provider) : AList fun _ : TypeId => Nat :=
  reg.strategies.entries.foldr (fun e m => if e.2.isWeighted then m.insert e.1 0 else m) ∅

/-- Freezes the registry. -/
def build (reg : CapabilityRegistry TypeId Provider) : Capabilities TypeId Provider :=
  ⟨reg.providers, reg.strategies, reg.rotation⟩

end CapabilityRegistry

/-! ## Lookup -/

/-- The sum of the weights, as `u64`. -/
def totalWeight (weights : List (String × U32)) : Nat :=
  weights.foldl (fun total e => (total + e.2.val) % 2 ^ 64) 0

/-- The walk of `weighted_pick`: the provider of the first name whose weight
takes the accumulated weight beyond `pick`. -/
def pickFrom {P : Type} (bucket : Bucket P) (pick : Nat) : Nat → List (String × U32) → Option P
  | _, [] => none
  | accumulated, (name, weight) :: weights =>
    if weight.val = 0 then pickFrom bucket pick accumulated weights
    else
      let accumulated := (accumulated + weight.val) % 2 ^ 64
      if pick < accumulated then bucket.lookup name else pickFrom bucket pick accumulated weights

namespace Capabilities

variable [DecidableEq TypeId]

/-- Takes one from the counter of `c`, which wraps, where there is one. -/
def weightedPick (caps : Capabilities TypeId Provider) (c : TypeId) (bucket : Bucket (Provider c))
    (weights : List (String × U32)) : Option (Provider c) × Capabilities TypeId Provider :=
  let total := totalWeight weights
  if total = 0 then (none, caps)
  else
    match caps.rotation.lookup c with
    | none => (none, caps)
    | some counter =>
      (pickFrom bucket (counter % total) 0 weights,
        { caps with rotation := caps.rotation.insert c ((counter + 1) % 2 ^ 64) })

/-- The strategy of a capability. -/
def strategy (caps : Capabilities TypeId Provider) (c : TypeId) : SelectionStrategy :=
  (caps.strategies.lookup c).getD .single

/-- Resolves a capability by its strategy. -/
def get (caps : Capabilities TypeId Provider) (c : TypeId) :
    Option (Provider c) × Capabilities TypeId Provider :=
  match caps.providers.lookup c with
  | none => (none, caps)
  | some bucket =>
    match caps.strategy c with
    | .single => (bucket.lookup defaultName, caps)
    | .fallback chain => (chain.findSome? fun name => bucket.lookup name, caps)
    | .weightedRoundRobin weights => caps.weightedPick c bucket weights

/-- Resolves a provider by its name, whatever the strategy. -/
def getNamed (caps : Capabilities TypeId Provider) (c : TypeId) (name : String) : Option (Provider c) :=
  (caps.providers.lookup c).bind fun bucket => bucket.lookup name

/-- Whether any provider is registered for `c`. -/
def containsType (caps : Capabilities TypeId Provider) (c : TypeId) : Bool :=
  match caps.providers.lookup c with
  | none => false
  | some bucket => !bucket.entries.isEmpty

/-- Whether a provider is registered for `c` under the name. -/
def containsTypedName (caps : Capabilities TypeId Provider) (c : TypeId) (name : String) : Bool :=
  match caps.providers.lookup c with
  | none => false
  | some bucket => decide (name ∈ bucket)

end Capabilities

end WalaStack.Impl.Runtime
