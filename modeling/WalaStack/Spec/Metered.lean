import WalaStack.Spec.Lag
import WalaStack.Impl.Metered

/-!
# Accounts of the fires

Every fire that a schedule announces is to be accounted for: it is completed, or
failed, or still open. `Accounted` is that for all schedules together, and for
the totals of the health registry once it has read everything.
-/

namespace WalaStack.Spec.Health

open WalaStack.Rust WalaStack.Broadcast WalaStack.Impl.Runtime WalaStack.Impl.Observability

/-- The last fire has not been reported as completed or failed. -/
def openFire (evs : List TaskEvent) : Bool :=
  match evs.getLast? with
  | some (.fired _ _) | some (.retrying _ _ _) => true
  | _ => false

/-- The schedules with an open fire. -/
def openFires (m : Metered) : Nat := m.schedules.countP fun p => openFire (publishedOf p.2.history)

/-- The schedule waits for its trigger, and is not cancelled. -/
def Waiting (s : Schedule) : Prop := s.cancelled = false ∧ ∃ wake, s.phase = .waiting wake

/-- The loop has read all that was sent, and missed none of it. -/
def CaughtUp (l : ObservabilityLoop) : Prop := ∀ k, l.next k = (l.sent k).length ∧ missed (l.reads k) = 0

structure Accounted (m : Metered) : Prop where
  fires : (m.loop.sent .taskFired).length =
    (m.loop.sent .taskCompleted).length + (m.loop.sent .taskFailed).length + openFires m
  /-- A schedule that waits has no open fire. -/
  closed : ∀ p ∈ m.schedules, Waiting p.2 → openFire (publishedOf p.2.history) = false
  totals : CaughtUp m.loop → (m.loop.sent .taskFired).length ≤ u64Max →
    m.loop.state.counts.tasksFired =
      m.loop.state.counts.tasksCompleted + m.loop.state.counts.tasksFailed + openFires m

end WalaStack.Spec.Health
