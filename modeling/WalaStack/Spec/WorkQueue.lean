import WalaStack.Spec.EventBus

/-!
# The hand-out of a work queue

Each event that `enqueue` or `try_enqueue` accepts should go to exactly one
worker of its type, in the order of acceptance. `Tallied` keeps, beside a bus,
what its queues have accepted and what its workers have taken; `HandsOut` is
that the two, and what is left in the queues, agree.
-/

namespace WalaStack.Spec.Runtime

open WalaStack.Impl.Runtime

variable {Ty Event : Type}

/-- An event of a type that a call has sent, or a worker taken. -/
structure Movement (Ty Event : Type) where
  party : Nat
  type : Ty
  event : Event
deriving DecidableEq, Repr

/-- The event of a call that has returned `Ok`. -/
def accepted? (call : OpCall Ty Event) : Option Event :=
  match call.phase with
  | .returned (.enqueued (.ok ())) => enqueued? call.op
  | _ => none

structure Tallied (Ty Event : Type) where
  bus : EventBus Ty Event
  /-- By the calls, in the order in which they sent their events. -/
  accepted : List (Movement Ty Event)
  /-- By the workers, in the order in which they took them. -/
  taken : List (Movement Ty Event)

namespace Tallied

def new : Tallied Ty Event := ⟨.new, [], []⟩

/-- What a call has sent in its step, after which the bus is `bus'`. -/
def sent? (bus' : EventBus Ty Event) : BusAction Ty Event → Option (Movement Ty Event)
  | .act i =>
    match bus'.calls[i]? with
    | some call => (accepted? call).map (⟨i, call.type, ·⟩)
    | none => none
  | _ => none

/-- What a worker takes: the head of its queue. -/
def taken? (bus : EventBus Ty Event) : BusAction Ty Event → Option (Movement Ty Event)
  | .recv j =>
    match bus.workers[j]? with
    | some w => (bus.queues w.channel).head?.map (⟨j, w.type, ·⟩)
    | none => none
  | _ => none

def step [DecidableEq Ty] (cfg : BusConfig) (s : Tallied Ty Event) (a : BusAction Ty Event) : Option (Tallied Ty Event) :=
  (s.bus.step cfg a).map fun bus' =>
    ⟨bus', s.accepted ++ (sent? bus' a).toList, s.taken ++ (taken? s.bus a).toList⟩

end Tallied

/-- The events of one type. -/
def eventsOf [DecidableEq Ty] (type : Ty) (ms : List (Movement Ty Event)) : List Event :=
  (ms.filter fun m => decide (m.type = type)).map Movement.event

/-- What the queue of a type holds. -/
def backlog [DecidableEq Ty] (bus : EventBus Ty Event) (type : Ty) : List Event :=
  match bus.lookup .work type with
  | some channel => bus.queues channel
  | none => []

structure HandsOut [DecidableEq Ty] (cfg : BusConfig) (s : Tallied Ty Event) : Prop where
  /-- What has been taken of a type is the first of what was accepted, and the
  rest is in the queue. -/
  inOrder : ∀ type, eventsOf type s.accepted = eventsOf type s.taken ++ backlog s.bus type
  /-- Accepted is what the calls that returned `Ok` sent, once for each of them. -/
  accepted : ∀ m, m ∈ s.accepted ↔
    ∃ call, s.bus.calls[m.party]? = some call ∧ call.type = m.type ∧ accepted? call = some m.event
  once : (s.accepted.map Movement.party).Nodup
  /-- Each worker has received what it took, and takes of its own type. -/
  received : ∀ j w, s.bus.workers[j]? = some w →
    w.received = (s.taken.filter fun m => decide (m.party = j)).map Movement.event
  takers : ∀ m ∈ s.taken, ∃ w, s.bus.workers[m.party]? = some w ∧ w.type = m.type
  bounded : ∀ type, (backlog s.bus type).length ≤ cfg.workCapacity
  /-- A worker that is there can take what the queue holds. -/
  flows : ∀ j w, s.bus.workers[j]? = some w → w.dropped = false → backlog s.bus w.type ≠ [] →
    (s.bus.step cfg (.recv j)).isSome = true
  /-- A call that sends is accepted while there is room. -/
  waits : ∀ i type event, Sends s.bus i type event → (backlog s.bus type).length < cfg.workCapacity →
    ∃ bus' call, s.bus.step cfg (.act i) = some bus' ∧ bus'.calls[i]? = some call ∧ accepted? call = some event

end WalaStack.Spec.Runtime
