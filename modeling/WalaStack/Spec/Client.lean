import WalaStack.Impl.Mcp.Client
import WalaStack.Spec.Dialogue

/-!
# What a method of the client returns

Behind a method there are the registry, a connection, two pipes and a server.
What it returns should be made of the answer to its own request, of a server
that was connected under its id during the call (`Served`).
-/

namespace WalaStack.Spec.Mcp

open WalaStack.Rust.Json WalaStack.Impl.Mcp

/-- At an instant from `first` to `last`, this is what the map had for the server. -/
def HeldBetween (s : StdioMcp) (first last : Nat) (server : String) (conn : Option StdioConnection) : Prop :=
  ∃ k map, first ≤ k ∧ k ≤ last ∧ s.instants[k]? = some map ∧ map.lookup server = conn

/-- Where the result of a method is from. -/
inductive Served (cfg : Nat → ConnectionConfig) (servers : Nat → LineServer) (m : Client) (call : MethodCall)
    (result : Except McpClientError Reply) (instant : Nat) : Prop
  /-- No connection had the server's id. -/
  | unknown : HeldBetween m.registry call.calledAt instant call.server none →
    result = .error (.unknownServer call.server) → Served cfg servers m call result instant
  /-- The server behind a connection has answered the request. -/
  | answered (conn : StdioConnection) (c : Nat) (r : JsonRpcResponse) :
    HeldBetween m.registry call.calledAt instant call.server (some conn) → call.made = some (conn.connection, c) →
    exchange (cfg conn.connection) (servers conn.connection)
      (requestOf (m.dialogues conn.connection) c call.method.request.1 call.method.request.2).toValue = some r →
    result = call.method.run (some fun _ _ => Connection.resultOf r) call.server →
    Served cfg servers m call result instant
  /-- The request has failed on the client's side. -/
  | failed (conn : StdioConnection) (e : McpError) :
    HeldBetween m.registry call.calledAt instant call.server (some conn) → LocalError e →
    result = .error (.connection e) → Served cfg servers m call result instant

structure ServesMethods (cfg : Nat → ConnectionConfig) (servers : Nat → LineServer) (m : Client) : Prop where
  served : ∀ call ∈ m.calls, ∀ result instant, call.phase = .returned result instant →
    Served cfg servers m call result instant
  /-- No two methods have made one request. -/
  apart : ∀ (j j' : Nat) p, (m.calls[j]?).bind MethodCall.made = some p → (m.calls[j']?).bind MethodCall.made = some p → j = j'

/-- No call leaves a part of its message on the stdin of a server. -/
def LeavesAllWhole (m : Client) : ClientAction → Prop
  | .dialogue k a => LeavesWhole (m.dialogues k) a
  | _ => True

end WalaStack.Spec.Mcp
