import WalaStack.Framework.Transition
import WalaStack.Impl.Mcp.Sessions

/-!
# Sessions in balance

When the task of a session has ended, its connection should be out of the map,
its end should have been published once, and its clean-up should have left the
connections of the others alone.
-/

namespace WalaStack.Spec.Mcp

open WalaStack.Impl.Mcp WalaStack.Transition

structure Balanced (s : Sessions) : Prop where
  out : ∀ i st, s.sessions[i]? = some st → st.phase = .ended → ∀ server, s.connections server ≠ some i
  /-- Each `McpServerConnected` has one `McpServerDisconnected`. -/
  once : ∀ i st, s.sessions[i]? = some st → st.phase = .ended →
    s.log.count (.connected i) = 1 ∧ s.log.count (.disconnected i) = 1
  own : ∀ i j, .removed i (some j) ∈ s.log → j = i

/-- No task is dropped by its watcher's abort, none panics before it has
published `McpServerDisconnected`, and a task that removes its server id from
the map finds its own connection there, or none. -/
def CleansUp (s : Sessions) : SessionsAction → Prop
  | .session _ .cancelled => False
  | .session i .panicked => ∀ st ∈ s.sessions[i]?, st.phase = .finishing
  | .session i .removed => ∀ st ∈ s.sessions[i]?, s.connections st.server = none ∨ s.connections st.server = some i
  | _ => True

instance (s : Sessions) (a : SessionsAction) : Decidable (CleansUp s a) := by
  unfold CleansUp
  split <;> infer_instance

end WalaStack.Spec.Mcp
