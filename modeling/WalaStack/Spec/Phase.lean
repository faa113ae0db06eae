import WalaStack.Impl.Runtime.Observed

/-!
# The last phase

The registry reports the phase that the observer has seen. At the end of a run
that should be `Stopped`; but the observer ends on the signal that begins the
shutdown, and what it does not receive it does not report.
-/

namespace WalaStack.Spec.Health

open WalaStack.Impl.Runtime WalaStack.Impl.Observability

def runtimeEvent? : Observed → Option RuntimeEvent
  | .runtime e => some e
  | .service _ | .task _ => none

/-- The last of the kernel's events among those received. -/
def lastPhase (received : List Observed) : Option RuntimeEvent := (received.filterMap runtimeEvent?).getLast?

/-- When `shutdown_gracefully` has returned and the root task has ended, the
phase is `Stopped`. -/
def StoppedAtEnd (s : ObservedRuntime) : Prop :=
  0 < s.shutdown.returned → s.ended = true → s.runtimePhase = .stopped

/-- `shutdown_gracefully` first publishes `RuntimeStopped` when the root task
has not ended; and when it has returned, the task ends with `RuntimeStopped`
as the last kernel event that it received. -/
def OutlivesDrain (s : ObservedRuntime) : ObservedAction → Prop
  | .shutdown .stop => s.shutdown.returned = 0 → s.ended = false
  | .breaks | .cancelled => 0 < s.shutdown.returned → lastPhase s.received = some .stopped
  | _ => True

instance (s : ObservedRuntime) : DecidablePred (OutlivesDrain s)
  | .shutdown .stop => inferInstanceAs (Decidable (s.shutdown.returned = 0 → s.ended = false))
  | .breaks | .cancelled =>
    inferInstanceAs (Decidable (0 < s.shutdown.returned → lastPhase s.received = some .stopped))
  | .shutdown .call | .shutdown (.read _) | .shutdown (.set _) | .shutdown (.publish _) | .shutdown .gracefully
  | .shutdown .check | .shutdown .signalled | .shutdown .drained | .shutdown .drop
  | .startService | .started | .serviceEvent _ | .taskEvent _ | .recv _ | .aborts | .joins | .drained | .elapsed
  | .shutdownNow | .dropped => isTrue trivial

end WalaStack.Spec.Health
