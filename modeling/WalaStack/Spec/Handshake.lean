import WalaStack.Impl.Mcp.Open
import WalaStack.Spec.Dialogue

/-!
# The handshake

A server is to be asked to initialize before anything else, and then be told
that the client is initialized. `Handshaken` says that it is, whatever it
answers, and what `open` returns is made of that answer.
-/

namespace WalaStack.Spec.Mcp

open WalaStack.Rust WalaStack.Rust.Json WalaStack.Impl.Mcp

/-- The first request of a connection. -/
def initializeRequest : JsonRpcRequest := ⟨1, "initialize", initParams⟩

def initializedNotification : JsonRpcNotification := ⟨"notifications/initialized", .object []⟩

/-- The two messages of the handshake. -/
def handshake (cfg : ConnectionConfig) : List UInt8 :=
  Connection.frame cfg initializeRequest.toValue ++ Connection.frame cfg initializedNotification.toValue

/-- The server's answer to the `initialize` request. -/
def initializeAnswer (cfg : ConnectionConfig) (server : LineServer) : Option (Except McpError Value) :=
  (exchange cfg server initializeRequest.toValue).map Connection.resultOf

structure Handshaken (cfg : ConnectionConfig) (server : LineServer) (o : Opening) : Prop where
  /-- Until the connection is opened the server gets the handshake only, -/
  first : (∀ name, o.phase ≠ .opened name) → o.dialogue.connection.stdin.written <+: handshake cfg
  /-- and it has got all of it by then. -/
  opened : ∀ name, o.phase = .opened name → handshake cfg <+: o.dialogue.connection.stdin.written ∧
    ∃ result, initializeAnswer cfg server = some (.ok result) ∧ name = displayName result
  failed : ∀ e, o.phase = .failed e → LocalError e ∨ initializeAnswer cfg server = some (.error e)

/-- No call leaves a part of its message behind. -/
def OpensWhole (o : Opening) : OpenAction → Prop
  | .dialogue a => LeavesWhole o.dialogue a
  | _ => True

end WalaStack.Spec.Mcp
