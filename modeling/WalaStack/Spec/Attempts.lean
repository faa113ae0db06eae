import WalaStack.Spec.Supervision

/-!
# The attempts of a service

`AttemptHistory svc n` are the histories of `n` calls of `Service::start` that
have resolved: the `k`th call carries the number `k`, is announced under that
number and no other, and what follows it is the end of its root task
(`AttemptTrace`). A call in flight is the last one (`Attempts`), and is announced
by the step in which it resolves (`AnnouncesCall`). `CallBudget` is how many calls a
policy has, and `Spaced` when the next may come.
-/

namespace WalaStack.Spec.Supervision

open WalaStack.Rust WalaStack.Impl.Runtime WalaStack.Transition

/-- The number of the `k`th call, as the `u32` that counts it. -/
def number (k : Nat) : Nat := min k u32Max

/-- What follows the announcement of the `k`th attempt: the end of its root
task, and the event of that end. -/
inductive Ending (svc : Supervised) (k : Nat) : Entry → Prop
  | exited (r : JoinResult) (t : Nat) : Ending svc k (.exited (number k) r t)
  | aborted (t : Nat) : Ending svc k (.aborted (number k) t)
  | stopped : Ending svc k (.published (.stopped svc.name))
  | panicked (error : String) (willRestart : Bool) :
    Ending svc k (.published (.failed svc.name error (number k) willRestart))

/-- What follows the `k`th call of `Service::start`, before the next: what it
resolves to, and what is announced of that. -/
inductive AttemptTrace (svc : Supervised) (k : Nat) : List Entry → Prop
  /-- `start_service` returns the error of the first call. -/
  | refused (e : String) : k = 1 → AttemptTrace svc k [.resolved (number k) (.error e)]
  /-- After the failure, the exit of the placeholder may be announced. -/
  | failed (e : String) (willRestart : Bool) (rest : List Entry) : 2 ≤ k →
    (∀ x ∈ rest, x = .published (.stopped svc.name)) →
    AttemptTrace svc k
      (.resolved (number k) (.error e) :: .published (.failed svc.name e (number k) willRestart) :: rest)
  | started (rest : List Entry) : (∀ x ∈ rest, Ending svc k x) →
    AttemptTrace svc k (.resolved (number k) (.ok ()) :: .published (.started svc.name (number k)) :: rest)

/-- The history of `n` attempts. -/
inductive AttemptHistory (svc : Supervised) : Nat → List Entry → Prop
  | none : AttemptHistory svc 0 []
  | next {n : Nat} {h : List Entry} (t : Nat) {es : List Entry} : AttemptHistory svc n h →
    AttemptTrace svc (n + 1) es → AttemptHistory svc (n + 1) (h ++ .called (number (n + 1)) t :: es)

/-- The watcher, or `start_service`, awaits `Service::start`. -/
def AwaitsStart (w : Watcher) : Prop := w.phase = .starting ∨ w.phase = .restarting

/-- The calls of `Service::start` that a policy has for a service. -/
def CallBudget : RestartPolicy → Nat → Prop
  | .oneShot, n => n = 1
  | .onFailure maxAttempts _, n => n ≤ max 1 maxAttempts.val
  | .always _, _ => True

end WalaStack.Spec.Supervision
