import WalaStack.Framework.Transition
import WalaStack.Impl.Runtime.EventBus

/-!
# One channel per event type

The calls for one type meet on one channel (`SameChannel`), on which the
subscribers and workers of the type are (`OnChannel`). `ClosureReported` is the
promise of the work queue: nothing is accepted once its workers have gone.
-/

namespace WalaStack.Spec.Runtime

open WalaStack.Impl.Runtime WalaStack.Transition

variable {Ty Event : Type} [DecidableEq Ty]

/-- The states of a new bus with its calls. -/
abbrev BusReachable (cfg : BusConfig) : EventBus Ty Event → Prop :=
  Reach (EventBus.step cfg) (· = .new) fun _ _ => True

/-- Two calls of one registry for one type obtain one channel. -/
def SameChannel (bus : EventBus Ty Event) : Prop :=
  ∀ call ∈ bus.calls, ∀ call' ∈ bus.calls, call.op.kind = call'.op.kind → call.type = call'.type →
    ∀ channel channel', call.channel = some channel → call'.channel = some channel' → channel = channel'

/-- The handles of a registry. -/
def handles (bus : EventBus Ty Event) : ChannelKind → List (BusHandle Ty Event)
  | .broadcast => bus.subscribers
  | .work => bus.workers

/-- The subscribers of a type, or its workers, are on the channel that a call for
the type obtained, and no handle of another type is. -/
def OnChannel (bus : EventBus Ty Event) : Prop :=
  ∀ call ∈ bus.calls, ∀ channel, call.channel = some channel →
    ∀ h ∈ handles bus call.op.kind, h.channel = channel ↔ h.type = call.type

/-- The entries of both registries are those of `bus'` too. -/
def EntriesKept (bus bus' : EventBus Ty Event) : Prop :=
  ∀ kind type e, bus.registry kind type = some e → bus'.registry kind type = some e

/-! ## Closure of the work queue -/

/-- There were workers for the type, and all have been dropped. -/
def Deserted (bus : EventBus Ty Event) (type : Ty) : Prop :=
  (∃ h ∈ bus.workers, h.type = type) ∧ ∀ h ∈ bus.workers, h.type = type → h.dropped = true

/-- The event of a call of `enqueue` or `try_enqueue`. -/
def enqueued? : BusOp Event → Option Event
  | .enqueue event | .tryEnqueue event => some event
  | _ => none

/-- Call `i` is about to send its event to the work channel of its type, or
waits for room there. -/
def Sends (bus : EventBus Ty Event) (i : Nat) (type : Ty) (event : Event) : Prop :=
  ∃ call channel, bus.calls[i]? = some call ∧ call.type = type ∧ enqueued? call.op = some event ∧
    call.phase = .obtained ∧ call.channel = some channel

/-- Its next step is to return an error of kind `Closed`, with the event. -/
def ReturnsClosed (cfg : BusConfig) (bus : EventBus Ty Event) (i : Nat) (event : Event) : Prop :=
  ∃ bus' call, bus.step cfg (.act i) = some bus' ∧ bus'.calls[i]? = some call ∧
    call.phase = .returned (.enqueued (.error ⟨event, .closed⟩))

/-- What is sent to a deserted queue comes back as closed. -/
def ClosureReported (cfg : BusConfig) (bus : EventBus Ty Event) : Prop :=
  ∀ i type event, Sends bus i type event → Deserted bus type → ReturnsClosed cfg bus i event

/-- Nothing is sent to a deserted queue. -/
def NoneSent (bus : EventBus Ty Event) : Prop :=
  ∀ i type event, Sends bus i type event → ¬ Deserted bus type

end WalaStack.Spec.Runtime
