import WalaStack.Framework.Broadcast
import WalaStack.Impl.Runtime.EventBus

/-!
# Subscribers

`Subscriber::recv` of `walastack-runtime/src/events.rs`: the broadcast channel of
one event type, with `publish` and any number of subscribers. The channel is
`tokio`'s, by its documentation: it retains the last `size` events, as many as
its capacity or more, and a receiver that has fallen behind them is told how many
it has missed and goes on at the oldest. How calls of the bus come to the channel
of their type is in `EventBus.lean`.
-/

namespace WalaStack.Impl.Runtime

open WalaStack.Broadcast

/-- Error returned by `Subscriber::recv`. -/
inductive RecvError
  /-- The bus has been dropped. -/
  | closed
  | lagged (missed : Nat)
deriving DecidableEq, Repr

structure Subscriber (Event : Type) where
  /-- The events that had been sent when it subscribed. -/
  since : Nat
  /-- The position of its receiver. -/
  next : Nat
  dropped : Bool
  /-- What its calls of `recv` have returned. -/
  received : List (Except RecvError Event)

structure Subscribers (Event : Type) where
  /-- All the events that were sent to the channel. -/
  sent : List Event
  subscribers : List (Subscriber Event)
  /-- The events published, and what `publish` returned. -/
  published : List (Event × PublishOutcome)
  /-- All clones of the bus have been dropped. -/
  closed : Bool

inductive SubscribersAction (Event : Type)
  | publish (event : Event)
  | subscribe
  | recv (j : Nat)
  | dropSubscriber (j : Nat)
  | dropBus

variable {Event : Type}

namespace Subscribers

def new : Subscribers Event := ⟨[], [], [], false⟩

/-- `receiver_count` -/
def live (s : Subscribers Event) : Nat := s.subscribers.countP fun sub => !sub.dropped

/-- `EventBus::publish`: an event without a receiver is dropped. -/
def publish (s : Subscribers Event) (event : Event) : Subscribers Event :=
  match s.live with
  | 0 => { s with published := s.published ++ [(event, .noSubscribers)] }
  | n => { s with sent := s.sent ++ [event], published := s.published ++ [(event, .delivered n)] }

/-- `Subscriber::recv`, with `RecvError::from`: `none` while it waits. -/
def recv (size : Nat) (s : Subscribers Event) (sub : Subscriber Event) : Option (Subscriber Event) :=
  match read size s.sent sub.next with
  | some (.event e, next) => some { sub with next := next, received := sub.received ++ [.ok e] }
  | some (.lagged n, next) => some { sub with next := next, received := sub.received ++ [.error (.lagged n)] }
  | none => if s.closed then some { sub with received := sub.received ++ [.error .closed] } else none

def step (size : Nat) (s : Subscribers Event) : SubscribersAction Event → Option (Subscribers Event)
  | .publish event => if s.closed then none else some (s.publish event)
  | .subscribe =>
    if s.closed then none
    else some { s with subscribers := s.subscribers ++ [⟨s.sent.length, s.sent.length, false, []⟩] }
  | .recv j =>
    match s.subscribers[j]? with
    | some sub =>
      if sub.dropped then none
      else (s.recv size sub).map fun sub' => { s with subscribers := s.subscribers.set j sub' }
    | none => none
  | .dropSubscriber j =>
    match s.subscribers[j]? with
    | some sub => if sub.dropped then none else some { s with subscribers := s.subscribers.set j { sub with dropped := true } }
    | none => none
  | .dropBus => if s.closed then none else some { s with closed := true }

end Subscribers

end WalaStack.Impl.Runtime
