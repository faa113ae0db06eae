import Mathlib.Data.List.Rotate
import WalaStack.Impl.Runtime.Capabilities

/-!
# The weighted rotation

`slots` are the names of a rotation, each as many times as its weight, so that
`Proportional` lookups are the providers of all slots, in some order. The
counter wraps at `2 ^ 64`: the lookups after that go on from the first slot,
whatever the slot before was (`SameAfterWrap`). `turn` is the name that a single
lookup comes to, registered or not.
-/

namespace WalaStack.Spec.Capabilities

open WalaStack.Rust WalaStack.Impl.Runtime

variable {TypeId : Type} {Provider : TypeId → Type} [DecidableEq TypeId]

/-- The total weight. -/
def weightSum (weights : List (String × U32)) : Nat := (weights.map fun e => e.2.val).sum

/-- The names, each as many times as its weight. -/
def slots (weights : List (String × U32)) : List String := weights.flatMap fun e => List.replicate e.2.val e.1

/-- The results of `n` lookups of `c`, one after another. -/
def lookups (caps : Capabilities TypeId Provider) (c : TypeId) : Nat → List (Option (Provider c))
  | 0 => []
  | n + 1 => (caps.get c).1 :: lookups (caps.get c).2 c n

/-- The results are the providers of the names, each as many times as the
name's weight. -/
def Proportional {P : Type} (bucket : Bucket P) (weights : List (String × U32)) (results : List (Option P)) : Prop :=
  results.Perm ((slots weights).map fun name => bucket.lookup name)

/-- The lookups of a round that come after the counter has wrapped. -/
def afterWrap (weights : List (String × U32)) (counter : Nat) : Nat := counter + weightSum weights - 2 ^ 64

/-- The first slots have the same providers as the slots where the rotation
stood when the counter wrapped. -/
def SameAfterWrap {P : Type} (bucket : Bucket P) (weights : List (String × U32)) (counter : Nat) : Prop :=
  (((slots weights).take (afterWrap weights counter)).map fun name => bucket.lookup name).Perm
    ((((slots weights).rotate (2 ^ 64)).take (afterWrap weights counter)).map fun name => bucket.lookup name)

/-- The name whose turn it is: the last of the shortest part of the list that
weighs more than the index, which is the counter's in one round. -/
def turn (weights : List (String × U32)) (counter : Nat) : Option String :=
  if totalWeight weights = 0 then none
  else
    (weights.inits.find? fun taken => decide (counter % totalWeight weights < totalWeight taken)).bind
      fun taken => taken.getLast?.map Prod.fst

/-- No name that is in the rotation has a provider. -/
def NoneRegistered (caps : Capabilities TypeId Provider) (c : TypeId) (weights : List (String × U32)) : Prop :=
  ∀ e ∈ weights, e.2.val ≠ 0 → caps.getNamed c e.1 = none

/-- The name whose turn it is has a provider. -/
def TurnRegistered (caps : Capabilities TypeId Provider) (c : TypeId) (weights : List (String × U32))
    (counter : Nat) : Prop :=
  ∃ name, turn weights counter = some name ∧ caps.getNamed c name ≠ none

/-- A lookup finds nothing only where there is nothing to find. -/
def NoneOnlyWhenItMust (caps : Capabilities TypeId Provider) (c : TypeId) (weights : List (String × U32)) : Prop :=
  (caps.get c).1 = none ↔ weightSum weights = 0 ∨ NoneRegistered caps c weights

end WalaStack.Spec.Capabilities
