import WalaStack.Framework.Transition
import WalaStack.Impl.Runtime.Subscribers

/-!
# What a subscriber receives

Every event that is published after it has subscribed, in order, each once; and
where some were dropped for it, how many, at the place where they were.
-/

namespace WalaStack.Spec.Runtime

open WalaStack.Broadcast WalaStack.Impl.Runtime

variable {Event : Type}

/-- What was read of the channel. -/
def readOf : Except RecvError Event → Option (Read Event)
  | .ok e => some (.event e)
  | .error (.lagged n) => some (.lagged n)
  | .error .closed => none

structure Receives (s : Subscribers Event) (sub : Subscriber Event) : Prop where
  /-- From its subscription to where it is, all that was sent is received or
  counted as missed. -/
  covers : Covers s.sent sub.since (sub.received.filterMap readOf) sub.next
  /-- It is told that the bus was dropped when it has been, and all has been
  received. -/
  closed : .error .closed ∈ sub.received → s.closed = true ∧ sub.next = s.sent.length

/-- Of those who have subscribed so far, who still does. -/
def attend (present : List Bool) : SubscribersAction Event → List Bool
  | .subscribe => present ++ [true]
  | .dropSubscriber j => present.set j false
  | .publish _ | .recv _ | .dropBus => present

/-- What a publication to `n` subscribers returns. -/
def outcomeOf (n : Nat) : PublishOutcome := if n = 0 then .noSubscribers else .delivered n

/-- What the publications of a run return: `noSubscribers` exactly when nobody
subscribes. -/
def publications : List Bool → List (SubscribersAction Event) → List (Event × PublishOutcome)
  | _, [] => []
  | present, .publish event :: as => (event, outcomeOf (present.count true)) :: publications present as
  | present, a :: as => publications (attend present a) as

/-- The channel has been sent the events that somebody was subscribed to. -/
structure Published (as : List (SubscribersAction Event)) (s : Subscribers Event) : Prop where
  outcomes : s.published = publications [] as
  sent : s.sent = (s.published.filter fun p => p.2 != .noSubscribers).map Prod.fst

/-- Subscriber `j` calls `recv` when at most `capacity` events wait for it. -/
def KeepsUp (capacity j : Nat) (s : Subscribers Event) : SubscribersAction Event → Prop
  | .recv j' => j' = j → ∀ sub, s.subscribers[j]? = some sub → s.sent.length ≤ sub.next + capacity
  | _ => True

/-- It has received all that was sent since, up to where it is. -/
def ReceivesAll (s : Subscribers Event) (sub : Subscriber Event) : Prop :=
  ∃ closings, sub.received =
    ((s.sent.take sub.next).drop sub.since).map .ok ++ List.replicate closings (.error .closed)

end WalaStack.Spec.Runtime
