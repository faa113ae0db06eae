import WalaStack.Framework.Progress
import WalaStack.Impl.Jobs.Plugin
import WalaStack.Spec.JobStore

/-!
# Polled queues

A job that was accepted should come out of the store when the workers poll it
often enough.
-/

namespace WalaStack.Spec.Jobs

open WalaStack.Rust WalaStack.Impl.Jobs WalaStack.Progress

/-- The pull of a worker returns the job. -/
def PulledAt (queues : List String) (id : JobId) (now : DateTime) (inner : InMemoryStoreInner) : Prop :=
  ∃ r, (inner.pullNext queues now).1 = .ok (some r) ∧ r.id = id

/-- Pulls at any clocks that are past the time return the job after finitely
many. -/
def Reached (queues : List String) (id : JobId) (scheduledAt : DateTime) (inner : InMemoryStoreInner) : Prop :=
  ∀ clock : Nat → DateTime, (∀ n, scheduledAt ≤ clock n) →
    ∃ n, PulledAt queues id (clock n) (before (fun now inner => (inner.pullNext queues now).2) clock n inner)

/-- The queue for jobs of the type is one of those that the workers poll. -/
def Polled (config : JobsConfig) (metadata : JobMetadata) : Prop :=
  metadata.queue.getD config.defaultQueue ∈ config.queues

end WalaStack.Spec.Jobs
