import WalaStack.Impl.Observability

/-!
# Health out of order

The health surface should be the one that the events give in the order in
which they were published. The service receives each event type on a channel
of its own, so it may apply events of different types in another order.
-/

namespace WalaStack.Spec.Health

open WalaStack.Transition WalaStack.Channels WalaStack.Impl.Runtime WalaStack.Impl.Observability

def publishes : List ObserverAction → List Observed :=
  List.filterMap fun
    | .publish e => some e
    | .recv _ | .shutdown => none

/-- A run of the service in which `evs` are published, none of them lost, and
at the end of which all of them have been received. -/
def Consumed (evs : List Observed) (st : ObservabilityState) : Prop :=
  ∃ as o, publishes as = evs ∧ exec Observer.step Observer.init as = some o ∧
    (∀ k, o.receivers.unread k = []) ∧ o.receivers.state = st

/-- What is reported about the services and the runtime is the same. -/
def SameHealth (st st' : ObservabilityState) : Prop :=
  (∀ n, st.service n = st'.service n) ∧ st.phase = st'.phase

/-- However the service receives `evs`, it reports what they give in the
order of publication. -/
def OrderFree (evs : List Observed) : Prop :=
  ∀ st, Consumed evs st → SameHealth st (evs.foldl .observe .default)

/-- Events on different channels of which the one applied last wins: a failure
of a service and a start or a stop of it, and two phases of the runtime. -/
def Contradicts : Observed → Observed → Prop
  | .service (.failed n _ _ _), .service (.started m _) => n = m
  | .service (.failed n _ _ _), .service (.stopped m) => n = m
  | .runtime e, .runtime e' => e ≠ e'
  | _, _ => False

end WalaStack.Spec.Health
