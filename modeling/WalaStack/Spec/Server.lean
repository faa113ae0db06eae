import WalaStack.Framework.Transition
import WalaStack.Impl.Mcp.Server

/-!
# Restarts of unhealthy servers

The event `McpServerUnhealthy` promises that the supervision tree restarts the
server, whatever its pings are answered with.
-/

namespace WalaStack.Spec.Mcp

open WalaStack.Impl.Runtime WalaStack.Impl.Mcp WalaStack.Transition

/-- The kernel has not been shut down when the service is started. -/
def Initial (s : Server) : Prop := ∃ now, s = Server.init ⟨now, false⟩

/-- The `n`th ping is answered with `pings n`. -/
def Allows (pings : Nat → Except String Unit) (s : Server) : ServerAction → Prop
  | .answered result => result = pings s.pings
  | _ => True

/-- The states of the service when its pings are answered so. -/
abbrev Reachable (svc : McpServerService) (pings : Nat → Except String Unit) : Server → Prop :=
  Reach (Server.step svc) Initial (Allows pings)

/-- After `McpServerUnhealthy`, the watcher does not end without a further call
of `Service::start` or shutdown. -/
def UnhealthyRestarts (s : Server) : Prop :=
  ∀ server reason starts, (.unhealthy server reason, starts) ∈ s.events →
    s.watcher.phase = .returned → s.kernel.shutdown = false → starts < s.starts

end WalaStack.Spec.Mcp
