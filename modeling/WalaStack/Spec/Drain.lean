import WalaStack.Impl.Runtime.Drain

/-!
# What a drain promises

`drain` waits for the watchers up to its deadline, aborts those that have not
exited by then, and returns how many have.
-/

namespace WalaStack.Spec.Supervision

open WalaStack.Rust WalaStack.Impl.Runtime

/-- The watcher exits by the deadline. -/
def ExitsBy (deadline : Duration) (exit : Option Nat) : Prop := ∃ t, exit = some t ∧ t ≤ deadline.nanos

instance (deadline : Duration) (exit : Option Nat) : Decidable (ExitsBy deadline exit) :=
  match exit with
  | none => isFalse fun ⟨_, h, _⟩ => by cases h
  | some t => decidable_of_iff (t ≤ deadline.nanos)
      ⟨fun h => ⟨t, rfl, h⟩, fun ⟨_, heq, h⟩ => by cases heq; exact h⟩

/-- The watchers that exit at these times. -/
def watchersOf (exits : List (Option Nat)) : List WatcherTask := exits.map fun exit => ⟨exit, false⟩

/-- What `drain` promises of watchers that exit at these times. -/
structure DrainMeets (deadline : Duration) (exits : List (Option Nat)) (drained : Drained) : Prop where
  returned : drained.returnedAt ≤ deadline.nanos
  /-- Every watcher has exited or has been aborted. -/
  settled : ∀ watcher ∈ drained.watchers, watcher.aborted = true ∨ ∃ t, watcher.exit = some t ∧ t ≤ drained.returnedAt
  counted : drained.graceful = exits.countP fun exit => ExitsBy deadline exit

end WalaStack.Spec.Supervision
