import WalaStack.Impl.Mcp.Descriptors
import WalaStack.Impl.Mcp.Dialogue
import WalaStack.Impl.Mcp.Registry

/-!
# The methods of the MCP client

The methods of `McpRegistry` and `McpClient` for one server, as `StdioMcp` of
`walastack-mcp/src/stdio.rs` has them: each looks the server's connection up in
the registry, and makes one request on it. Any number of calls are in progress,
on any number of connections, each with its server behind it; the registry and
the connections go on, for others too, between any two steps of a method.
-/

namespace WalaStack.Impl.Mcp

open WalaStack.Rust.Json

inductive Method
  | listTools
  | listResources
  | invokeTool (tool : String) (arguments : Value)
  | readResource (uri : String)

/-- What a method returns. -/
inductive Reply
  | tools (tools : List ToolDescriptor)
  | resources (resources : List ResourceDescriptor)
  | invoked (result : Value)
  | content (content : ResourceContent)

def invokeTool (conn : Option Request) (server tool : String) (arguments : Value) : Except McpClientError Value := do
  let request ← connected conn server
  let params := .object [("arguments", arguments), ("name", .string tool)]
  (request "tools/call" params).mapError .connection

namespace Method

/-- The method by its connection, which is `none` if none was found. -/
def run (conn : Option Request) (server : String) : Method → Except McpClientError Reply
  | .listTools => (Mcp.listTools conn server).map .tools
  | .listResources => (Mcp.listResources conn server).map .resources
  | .invokeTool tool arguments => (Mcp.invokeTool conn server tool arguments).map .invoked
  | .readResource uri => (Mcp.readResource conn server uri).map .content

/-- The request that it makes. -/
def request : Method → String × Value
  | .listTools => ("tools/list", .object [])
  | .listResources => ("resources/list", .object [])
  | .invokeTool tool arguments => ("tools/call", .object [("arguments", arguments), ("name", .string tool)])
  | .readResource uri => ("resources/read", .object [("uri", .string uri)])

end Method

/-- The await that a method is at. -/
inductive MethodPhase
  /-- `connections.read()`, as call `i` of the registry. -/
  | finding (i : Nat)
  /-- `conn.request(..)` -/
  | requesting
  | returned (result : Except McpClientError Reply) (instant : Nat)

structure MethodCall where
  server : String
  method : Method
  phase : MethodPhase
  /-- The request that it has made: of which connection, and which call of that. -/
  made : Option (Nat × Nat)
  /-- The instant of the call: how many maps there had been. -/
  calledAt : Nat

structure Client where
  registry : StdioMcp
  dialogues : Nat → Dialogue
  calls : List MethodCall

inductive ClientAction
  /-- A step of the registry. -/
  | registry (a : RegistryAction)
  /-- A step of a connection, of its calls or of its server. -/
  | dialogue (connection : Nat) (a : DialogueAction)
  | call (server : String) (method : Method)
  /-- A method has its connection, or none; it makes its request as call `c`. -/
  | found (j c : Nat)
  /-- Its request has returned. -/
  | answered (j : Nat)

namespace Client

variable (cfg : Nat → ConnectionConfig) (servers : Nat → LineServer)

def new (now : Nat) : Client := ⟨.new, fun _ => .init now, []⟩

def goto (m : Client) (j : Nat) (call : MethodCall) (phase : MethodPhase) : Client :=
  { m with calls := m.calls.set j { call with phase := phase } }

/-- The method returns. -/
def ends (m : Client) (j : Nat) (call : MethodCall) (conn : Option Request) : Client :=
  m.goto j call (.returned (call.method.run conn call.server) m.registry.past.length)

def onDialogue (m : Client) (k : Nat) (a : DialogueAction) : Option Client :=
  ((m.dialogues k).step (cfg k) (servers k) a).map fun d => { m with dialogues := Function.update m.dialogues k d }

def step (m : Client) : ClientAction → Option Client
  | .registry a => (m.registry.step a).map fun registry => { m with registry := registry }
  | .dialogue k a => m.onDialogue cfg servers k a
  | .call server method =>
    (m.registry.step (.call (.get server))).map fun registry =>
      { m with
        registry := registry
        calls := m.calls ++ [⟨server, method, .finding m.registry.calls.length, none, m.registry.past.length⟩] }
  | .found j c =>
    match m.calls[j]? with
    | some call =>
      match call.phase with
      | .finding i =>
        match (m.registry.calls[i]?).map RegistryCall.phase with
        | some (.returned (.found none) _) => some (m.ends j call none)
        | some (.returned (.found (some conn)) _) =>
          let request := .client (.request c call.method.request.1 call.method.request.2)
          (m.onDialogue cfg servers conn.connection request).map fun m =>
            m.goto j { call with made := some (conn.connection, c) } .requesting
        | _ => none
      | _ => none
    | none => none
  | .answered j =>
    match m.calls[j]? with
    | some call =>
      match call.phase, call.made with
      | .requesting, some (k, c) =>
        match ((m.dialogues k).connection.calls c).phase with
        | .returned result => some (m.ends j call (some fun _ _ => result))
        | _ => none
      | _, _ => none
    | none => none

end Client

end WalaStack.Impl.Mcp
