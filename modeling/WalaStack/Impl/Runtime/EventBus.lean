import Mathlib.Logic.Function.Basic
import WalaStack.Rust.Num

/-!
# The event bus

`EventBus` of `walastack-runtime/src/events.rs`: any number of calls on the
clones of one bus, its two registries of channels, and the handles that calls
return. A call takes the read lock, and the write lock where it has found
nothing; each of the two sections is one step, and so is what it then does with
its channel. `shutdown` is in `Shutdown.lean`.

`Ty` are the `TypeId`s of the events. The channels are `tokio`'s and
`async-channel`'s, by their documentation: a broadcast is refused where there
is no receiver; a bounded channel is closed when its last sender or its last
receiver is dropped, and then refuses what is sent to it. What a subscriber
reads is not modelled.
-/

namespace WalaStack.Impl.Runtime

open WalaStack.Rust

/-- The two registries: `broadcast_channels` and `work_channels`. -/
inductive ChannelKind
  | broadcast
  | work
deriving DecidableEq, Repr

/-- `Arc<dyn Any + Send + Sync>`: a channel, with its own type. -/
structure ErasedChannel (Ty : Type) where
  kind : ChannelKind
  type : Ty
  channel : Nat
deriving DecidableEq, Repr

/-- `downcast_arc` and `downcast_arc_ref`. -/
def ErasedChannel.downcast {Ty : Type} [DecidableEq Ty] (e : ErasedChannel Ty) (kind : ChannelKind) (type : Ty) : Option Nat :=
  if e.kind = kind ∧ e.type = type then some e.channel else none

inductive PublishOutcome
  | delivered (subscribers : Nat)
  | noSubscribers
deriving DecidableEq, Repr

inductive EnqueueErrorKind
  | full
  | closed
deriving DecidableEq, Repr

structure EnqueueError (Event : Type) where
  event : Event
  kind : EnqueueErrorKind
deriving DecidableEq, Repr

/-- The methods of a bus, with the event that they are called with. -/
inductive BusOp (Event : Type)
  | publish (event : Event)
  | subscribe
  | subscriberCount
  | enqueue (event : Event)
  | tryEnqueue (event : Event)
  | worker

/-- What they return: a handle is its number. -/
inductive BusResult (Event : Type)
  | published (outcome : PublishOutcome)
  | subscribed (subscriber : Nat)
  | counted (subscribers : Nat)
  | enqueued (result : Except (EnqueueError Event) Unit)
  | worker (worker : Nat)

/-- Where a call is. -/
inductive OpPhase (Event : Type)
  /-- Before the read lock. -/
  | fast
  /-- Before the write lock. -/
  | slow
  /-- It has its channel: before `send`, `try_send`, `subscribe` or `clone`. -/
  | obtained
  | returned (result : BusResult Event)
  /-- It was to create a channel with a capacity that there is no channel of. -/
  | panicked
  /-- The future of `enqueue` was dropped. -/
  | dropped

structure OpCall (Ty Event : Type) where
  type : Ty
  op : BusOp Event
  phase : OpPhase Event
  /-- The channel that it obtained. -/
  channel : Option Nat

/-- A `Subscriber` or a `Worker`. -/
structure BusHandle (Ty Event : Type) where
  type : Ty
  channel : Nat
  dropped : Bool
  /-- What the calls of `Worker::recv` and `try_recv` on it have returned. -/
  received : List Event

structure BusConfig where
  broadcastCapacity : Nat
  workCapacity : Nat

/-- `DEFAULT_BROADCAST_CAPACITY` and `DEFAULT_WORK_CAPACITY` -/
def BusConfig.default : BusConfig := ⟨256, 1024⟩

structure EventBus (Ty Event : Type) where
  registry : ChannelKind → Ty → Option (ErasedChannel Ty)
  /-- The number of channels that have been created. -/
  created : Nat
  /-- The references to a `WorkChannel`, which has a sender and a receiver. -/
  arcs : Nat → Nat
  /-- The events in the work channels. -/
  queues : Nat → List Event
  calls : List (OpCall Ty Event)
  subscribers : List (BusHandle Ty Event)
  workers : List (BusHandle Ty Event)

inductive BusAction (Ty Event : Type)
  /-- A method is called for events of a type. -/
  | call (type : Ty) (op : BusOp Event)
  /-- The section under the read lock. -/
  | read (i : Nat)
  /-- The section under the write lock. -/
  | write (i : Nat)
  /-- What the call does with its channel. -/
  | act (i : Nat)
  /-- The future of `enqueue` is dropped while it awaits. -/
  | abandon (i : Nat)
  | dropSubscriber (j : Nat)
  | cloneWorker (j : Nat)
  | dropWorker (j : Nat)
  /-- `Worker::recv` or `try_recv` takes an event. -/
  | recv (j : Nat)

variable {Ty Event : Type}

/-- The registry of a method's channel. -/
def BusOp.kind : BusOp Event → ChannelKind
  | publish _ | subscribe | subscriberCount => .broadcast
  | enqueue _ | tryEnqueue _ | worker => .work

/-- Whether there is a channel of the configured capacity: `broadcast::channel`
panics for zero and for more than half of `usize::MAX`,
`async_channel::bounded` for zero. -/
def BusConfig.creates (cfg : BusConfig) : ChannelKind → Bool
  | .broadcast => decide (0 < cfg.broadcastCapacity ∧ cfg.broadcastCapacity ≤ u64Max / 2)
  | .work => decide (0 < cfg.workCapacity)

namespace EventBus

def new : EventBus Ty Event := ⟨fun _ _ => none, 0, fun _ => 0, fun _ => [], [], [], []⟩

/-! ## Channels -/

/-- The undropped handles on a channel. -/
def live (channel : Nat) (handles : List (BusHandle Ty Event)) : Nat :=
  handles.countP fun h => !h.dropped && h.channel == channel

/-- The senders of a work channel. -/
def senders (bus : EventBus Ty Event) (channel : Nat) : Nat := if bus.arcs channel = 0 then 0 else 1

/-- Its receivers: that of the `WorkChannel`, and the workers. -/
def receivers (bus : EventBus Ty Event) (channel : Nat) : Nat :=
  (if bus.arcs channel = 0 then 0 else 1) + live channel bus.workers

def closed (bus : EventBus Ty Event) (channel : Nat) : Bool :=
  bus.senders channel == 0 || bus.receivers channel == 0

def push (bus : EventBus Ty Event) (channel : Nat) (event : Event) : EventBus Ty Event :=
  { bus with queues := Function.update bus.queues channel (bus.queues channel ++ [event]) }

/-- A reference to a `WorkChannel` more, or one less. -/
def retain (bus : EventBus Ty Event) (kind : ChannelKind) (channel : Nat) : EventBus Ty Event :=
  match kind with
  | .broadcast => bus
  | .work => { bus with arcs := Function.update bus.arcs channel (bus.arcs channel + 1) }

def release (bus : EventBus Ty Event) (kind : ChannelKind) (channel : Nat) : EventBus Ty Event :=
  match kind with
  | .broadcast => bus
  | .work => { bus with arcs := Function.update bus.arcs channel (bus.arcs channel - 1) }

/-! ## Calls -/

def setCall (bus : EventBus Ty Event) (i : Nat) (call : OpCall Ty Event) : EventBus Ty Event :=
  { bus with calls := bus.calls.set i call }

/-- `return sender.clone()`, `return channel` -/
def obtains (bus : EventBus Ty Event) (i : Nat) (call : OpCall Ty Event) (channel : Nat) : EventBus Ty Event :=
  (bus.retain call.op.kind channel).setCall i { call with phase := .obtained, channel := some channel }

/-- The call ends, and drops its reference to the channel. -/
def ends (bus : EventBus Ty Event) (i : Nat) (call : OpCall Ty Event) (channel : Nat) (phase : OpPhase Event) :
    EventBus Ty Event :=
  (bus.release call.op.kind channel).setCall i { call with phase := phase }

section

variable [DecidableEq Ty]

/-- `guard.get(&type_id)`, downcast. -/
def lookup (bus : EventBus Ty Event) (kind : ChannelKind) (type : Ty) : Option Nat :=
  (bus.registry kind type).bind fun e => e.downcast kind type

/-- The fast path of `broadcast_sender` and `work_channel`. -/
def readLocked (bus : EventBus Ty Event) (i : Nat) (call : OpCall Ty Event) : EventBus Ty Event :=
  match bus.lookup call.op.kind call.type with
  | some channel => bus.obtains i call channel
  | none => bus.setCall i { call with phase := .slow }

/-- `guard.insert(type_id, arc)`, of a new channel: the entry that was there is
dropped. -/
def insert (bus : EventBus Ty Event) (kind : ChannelKind) (type : Ty) : EventBus Ty Event :=
  let replaced := match bus.registry kind type with
    | some e => bus.release e.kind e.channel
    | none => bus
  { replaced.retain kind bus.created with
    registry := Function.update bus.registry kind
      (Function.update (bus.registry kind) type (some ⟨kind, type, bus.created⟩))
    created := bus.created + 1 }

/-- Their slow path. -/
def writeLocked (cfg : BusConfig) (bus : EventBus Ty Event) (i : Nat) (call : OpCall Ty Event) :
    EventBus Ty Event :=
  match bus.lookup call.op.kind call.type with
  | some channel => bus.obtains i call channel
  | none =>
    if cfg.creates call.op.kind then (bus.insert call.op.kind call.type).obtains i call bus.created
    else bus.setCall i { call with phase := .panicked }

end

/-- What a call does with its channel: `none` while it waits for room. -/
def act (cfg : BusConfig) (bus : EventBus Ty Event) (i : Nat) (call : OpCall Ty Event) (channel : Nat) :
    Option (EventBus Ty Event) :=
  match call.op with
  | .publish _ =>
    let outcome := match live channel bus.subscribers with
      | 0 => .noSubscribers
      | n => .delivered n
    some (bus.ends i call channel (.returned (.published outcome)))
  | .subscribe =>
    let joined : EventBus Ty Event := { bus with subscribers := bus.subscribers ++ [⟨call.type, channel, false, []⟩] }
    some (joined.ends i call channel (.returned (.subscribed bus.subscribers.length)))
  | .subscriberCount => some (bus.ends i call channel (.returned (.counted (live channel bus.subscribers))))
  | .enqueue event =>
    if bus.closed channel then
      some (bus.ends i call channel (.returned (.enqueued (.error ⟨event, .closed⟩))))
    else if (bus.queues channel).length < cfg.workCapacity then
      some ((bus.push channel event).ends i call channel (.returned (.enqueued (.ok ()))))
    else none
  | .tryEnqueue event =>
    if bus.closed channel then
      some (bus.ends i call channel (.returned (.enqueued (.error ⟨event, .closed⟩))))
    else if (bus.queues channel).length < cfg.workCapacity then
      some ((bus.push channel event).ends i call channel (.returned (.enqueued (.ok ()))))
    else some (bus.ends i call channel (.returned (.enqueued (.error ⟨event, .full⟩))))
  | .worker =>
    let joined : EventBus Ty Event := { bus with workers := bus.workers ++ [⟨call.type, channel, false, []⟩] }
    some (joined.ends i call channel (.returned (.worker bus.workers.length)))

/-- Whether the call can be dropped where it awaits. -/
def awaits (call : OpCall Ty Event) : Bool :=
  match call.op, call.phase with
  | .enqueue _, .obtained => true
  | _, _ => false

/-! ## Steps -/

def step [DecidableEq Ty] (cfg : BusConfig) (bus : EventBus Ty Event) : BusAction Ty Event → Option (EventBus Ty Event)
  | .call type op => some { bus with calls := bus.calls ++ [⟨type, op, .fast, none⟩] }
  | .read i =>
    match bus.calls[i]? with
    | some call =>
      match call.phase with
      | .fast => some (bus.readLocked i call)
      | _ => none
    | none => none
  | .write i =>
    match bus.calls[i]? with
    | some call =>
      match call.phase with
      | .slow => some (bus.writeLocked cfg i call)
      | _ => none
    | none => none
  | .act i =>
    match bus.calls[i]? with
    | some call =>
      match call.phase, call.channel with
      | .obtained, some channel => bus.act cfg i call channel
      | _, _ => none
    | none => none
  | .abandon i =>
    match bus.calls[i]? with
    | some call =>
      match awaits call, call.channel with
      | true, some channel => some (bus.ends i call channel .dropped)
      | _, _ => none
    | none => none
  | .dropSubscriber j =>
    match bus.subscribers[j]? with
    | some h => if h.dropped then none else some { bus with subscribers := bus.subscribers.set j { h with dropped := true } }
    | none => none
  | .cloneWorker j =>
    match bus.workers[j]? with
    | some h => if h.dropped then none else some { bus with workers := bus.workers ++ [{ h with received := [] }] }
    | none => none
  | .dropWorker j =>
    match bus.workers[j]? with
    | some h => if h.dropped then none else some { bus with workers := bus.workers.set j { h with dropped := true } }
    | none => none
  | .recv j =>
    match bus.workers[j]? with
    | some h =>
      if h.dropped then none
      else
        match bus.queues h.channel with
        | event :: rest =>
          some { bus with
            queues := Function.update bus.queues h.channel rest
            workers := bus.workers.set j { h with received := h.received ++ [event] } }
        | [] => none
    | none => none

end EventBus

end WalaStack.Impl.Runtime
