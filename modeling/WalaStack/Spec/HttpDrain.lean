import WalaStack.Impl.Http.Service

/-!
# The drain of the HTTP service

When the accept loop has ended on its own, and when a drain has counted the
service as graceful, no request should be half served.
-/

namespace WalaStack.Spec.Http

open WalaStack.Impl.Http

/-- The task serves a request whose head was read before the signal. -/
def halfServed : ConnectionTask → Bool
  | .collecting early | .handling early => early
  | .idle | .ended => false

/-- Every request whose head was read before the signal has its response, or
has lost its connection. -/
def AllServed (s : HttpService) : Prop := ∀ task ∈ s.connections, halfServed task = false

structure HttpDrains (s : HttpService) : Prop where
  ended : s.ended = true → AllServed s
  graceful : s.graceful = true → AllServed s

/-- The accept loop takes its shutdown branch, and the drain counts the
watcher, when no request is half served. -/
def EndsServed (s : HttpService) : HttpAction → Prop
  | .breaks | .drained => AllServed s
  | _ => True

instance (s : HttpService) : Decidable (AllServed s) := by
  unfold AllServed
  infer_instance

instance (s : HttpService) (a : HttpAction) : Decidable (EndsServed s a) := by
  unfold EndsServed
  split <;> infer_instance

end WalaStack.Spec.Http
