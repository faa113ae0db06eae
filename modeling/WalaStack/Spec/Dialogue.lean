import WalaStack.Impl.Mcp.Dialogue
import WalaStack.Spec.Framing

/-!
# Requests and their answers

Between a request and its result there are two pipes, a server that takes one
line after the other, and other callers. What a call returns should be what the
server makes of its own message (`OwnAnswers`), and once nothing is on its way
any more, a call that waits should have its answer (`NoneUnanswered`).
-/

namespace WalaStack.Spec.Mcp

open WalaStack.Rust WalaStack.Rust.Json WalaStack.Impl.Mcp WalaStack.Lines

/-- The response that the client reads of the server's line for a message. -/
def exchange (cfg : ConnectionConfig) (server : LineServer) (message : Value) : Option JsonRpcResponse := do
  let line ← lineText (cfg.toVec message)
  let reply ← server line
  let text ← lineText (asBytes reply)
  Connection.responseOf cfg text

/-- A response has the id of its request, a notification gets none, and a line
has no newline within. -/
structure WellBehaved (cfg : ConnectionConfig) (server : LineServer) : Prop where
  own : ∀ (req : JsonRpcRequest) r, exchange cfg server req.toValue = some r → r.id = req.id
  quiet : ∀ n : JsonRpcNotification, exchange cfg server n.toValue = none
  oneLine : ∀ line reply, server line = some reply → 10 ∉ asBytes reply

/-- No call leaves a part of its message behind. -/
def LeavesWhole (d : Dialogue) : DialogueAction → Prop
  | .client a => KeepsFrames d.connection a
  | _ => True

/-- An error of the client's own. -/
def LocalError : McpError → Prop
  | .transport _ | .timeout _ => True
  | .remoteError _ _ => False

/-- The request that call `c` has made. -/
def requestOf (d : Dialogue) (c : Nat) (method : String) (params : Value) : JsonRpcRequest :=
  ⟨(d.connection.calls c).id, method, params⟩

/-- After the actions `as`, what a call has returned is the server's answer to
its request, or an error of the client's own. -/
def OwnAnswers (cfg : ConnectionConfig) (server : LineServer) (as : List DialogueAction) (d : Dialogue) : Prop :=
  ∀ c method params, .client (.request c method params) ∈ as → ∀ result,
    (d.connection.calls c).phase = .returned result →
      (∃ r, exchange cfg server (requestOf d c method params).toValue = some r ∧ result = Connection.resultOf r) ∨
        ∃ e, result = .error e ∧ LocalError e

/-- The server and the reader have taken all lines that there are for them. -/
structure Settled (d : Dialogue) : Prop where
  taken : d.taken = (lines 10 d.connection.stdin.written).length
  reading : d.connection.reader = .reading
  read : d.connection.lines = (lines 10 d.stdout).length

/-- A call that waits for what the server has answered has the answer at
hand. -/
def NoneUnanswered (cfg : ConnectionConfig) (server : LineServer) (as : List DialogueAction) (d : Dialogue) : Prop :=
  Settled d → ∀ c method params, .client (.request c method params) ∈ as → ∀ deadline,
    (d.connection.calls c).phase = .waiting deadline →
      ∀ r, exchange cfg server (requestOf d c method params).toValue = some r → ∃ n, d.connection.channels c = .sent n r

end WalaStack.Spec.Mcp
