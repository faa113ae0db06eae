import WalaStack.Framework.Transition
import WalaStack.Impl.Runtime.Shutdown

/-!
# Shutting down once

The two functions call themselves idempotent: the first call does the work,
and subsequent calls are no-ops. `AnnouncedOnce` is what their listeners see
of this.
-/

namespace WalaStack.Spec.Runtime

open WalaStack.Impl.Runtime WalaStack.Transition

/-- No call is under way that is going to publish. -/
structure Settled (s : Shutdown) : Prop where
  calls : ∀ c ∈ s.calls, c.returned = true
  graceful : s.graceful ≠ .stopping

/-- `RuntimeStopping` is published once, `RuntimeStopped` at most once and not
before it. -/
structure AnnouncedOnce (s : Shutdown) : Prop where
  stoppingOnce : s.log.count .stopping ≤ 1
  /-- It is published when the calls have returned. -/
  announced : s.calls ≠ [] → (∀ c ∈ s.calls, c.returned = true) → .stopping ∈ s.log
  stoppedOnce : s.log.count .stopped ≤ 1
  stoppingFirst : ∀ pre post, s.log = pre ++ .stopped :: post → .stopping ∈ pre

/-- No call of `EventBus::shutdown` reads `false` while another is between its
read and its `send_replace`; and `shutdown_gracefully` publishes
`RuntimeStopped` when no earlier call of it has returned, and no call of
`EventBus::shutdown` is between its `send_replace` and its `publish`. -/
def OneAtATime (s : Shutdown) : ShutdownAction → Prop
  | .read _ => s.down = false → .setting ∉ s.calls
  | .stop => s.returned = 0 ∧ .publishing ∉ s.calls
  | _ => True

instance (s : Shutdown) : DecidablePred (OneAtATime s)
  | .read _ => inferInstanceAs (Decidable (s.down = false → .setting ∉ s.calls))
  | .stop => inferInstanceAs (Decidable (s.returned = 0 ∧ .publishing ∉ s.calls))
  | .call | .set _ | .publish _ | .gracefully | .check | .signalled | .drained | .drop => isTrue trivial

end WalaStack.Spec.Runtime
