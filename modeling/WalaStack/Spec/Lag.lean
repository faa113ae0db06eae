import WalaStack.Framework.Transition
import WalaStack.Impl.ObservabilityLoop

/-!
# Health under lag

What the loop applies is, channel by channel, what was published, but for the
gaps that its receivers report; and where they keep up with the capacity of the
channels, the loop is the one that never lags.
-/

namespace WalaStack.Spec.Health

open WalaStack.Transition WalaStack.Broadcast WalaStack.Impl.Observability

/-- The total that is kept of a channel's events, if there is one. -/
def total? (counts : EventCounts) : Channel → Option Nat
  | .svcStarted => some counts.servicesStarted
  | .svcStopped => some counts.servicesStopped
  | .svcFailed => some counts.servicesFailed
  | .runtime _ => none
  | .taskFired => some counts.tasksFired
  | .taskCompleted => some counts.tasksCompleted
  | .taskFailed => some counts.tasksFailed
  | .taskRetrying => some counts.tasksRetrying

structure Observes (l : ObservabilityLoop) : Prop where
  covers : ∀ k, Covers (l.sent k) 0 (l.reads k) (l.next k)
  /-- The state is that of the events read, in some order between channels. -/
  applied : ∃ cs : List Observed, l.state = cs.foldl .observe .default ∧
    ∀ k, cs.filter (fun e => e.channel = k) = events (l.reads k)
  /-- Each total falls short by what was missed, and by no more. -/
  totals : ∀ k n, total? l.state.counts k = some n → n = min (l.next k - missed (l.reads k)) WalaStack.Rust.u64Max

/-- A receiver reads when at most `capacity` events wait for it. -/
def LoopKeepsUp (capacity : Nat) (l : ObservabilityLoop) : ObserverAction → Prop
  | .recv k => (l.sent k).length ≤ l.next k + capacity
  | _ => True

/-- The loop is where the one that never lags is after the same actions. -/
def AsLossless (as : List ObserverAction) (l : ObservabilityLoop) : Prop :=
  ∃ o, exec Observer.step Observer.init as = some o ∧ o.running = l.running ∧ o.receivers.state = l.state ∧
    ∀ k, o.receivers.unread k = (l.sent k).drop (l.next k)

end WalaStack.Spec.Health
