import WalaStack.Framework.Broadcast
import WalaStack.Impl.Observability

/-!
# The loop on the bus

The task of `ObservabilityService::start` over the broadcast channels of the
event bus, which retain their last `size` events only: a branch whose `recv`
returns an error, as after a lag, does nothing (`if let Ok(event) = evt`). In
`Observability.lean` the same loop never lags.
-/

namespace WalaStack.Impl.Observability

open WalaStack.Broadcast

structure ObservabilityLoop where
  /-- What has been sent to each channel since the task subscribed to all. -/
  sent : Channel → List Observed
  /-- The positions of its receivers. -/
  next : Channel → Nat
  /-- What their calls of `recv` have returned. -/
  reads : Channel → List (Read Observed)
  state : ObservabilityState
  running : Bool

namespace ObservabilityLoop

def init : ObservabilityLoop := ⟨fun _ => [], fun _ => 0, fun _ => [], .default, true⟩

def publish (l : ObservabilityLoop) (e : Observed) : ObservabilityLoop :=
  { l with sent := Function.update l.sent e.channel (l.sent e.channel ++ [e]) }

/-- The branch of a channel, once its `recv` has returned. -/
def onRead (l : ObservabilityLoop) (k : Channel) (r : Read Observed) (next : Nat) : ObservabilityLoop :=
  { l with
    next := Function.update l.next k next
    reads := Function.update l.reads k (l.reads k ++ [r])
    state :=
      match r with
      | .event e => l.state.observe e
      | .lagged _ => l.state }

def step (size : Nat) (l : ObservabilityLoop) : ObserverAction → Option ObservabilityLoop
  | .publish e => some (l.publish e)
  | .recv k =>
    if l.running then (read size (l.sent k) (l.next k)).map fun r => l.onRead k r.1 r.2
    else none
  | .shutdown => if l.running then some { l with running := false } else none

end ObservabilityLoop

end WalaStack.Impl.Observability
