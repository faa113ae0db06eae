import WalaStack.Impl.Mcp.Dialogue

/-!
# Opening a connection

`StdioConnection::open` of `walastack-mcp/src/stdio.rs` once the subprocess is
spawned: the `initialize` request, and the notification that finalizes the
handshake. While `open` runs, the connection is a local of it: the reader task
and the server go on, and all calls are its own. Afterwards anyone may call.
-/

namespace WalaStack.Impl.Mcp

open WalaStack.Rust WalaStack.Rust.Json

/-- `json!` of the `initialize` request. A map of `serde_json` is sorted. -/
def initParams : Value :=
  .object [("capabilities", .object []),
    ("clientInfo", .object [("name", .string "walastack-mcp"), ("version", .string "0.1.0")]),
    ("protocolVersion", .string "2024-11-05")]

/-- The name in the server's answer. -/
def displayName (initResult : Value) : Option String :=
  (initResult.get "serverInfo").bind fun v => (v.get "name").bind Value.asStr

/-- Where `open` is. -/
inductive OpenPhase
  /-- Before its call of `request`. -/
  | spawned
  /-- It awaits the `initialize` request, -/
  | initializing
  /-- and the `initialized` notification. -/
  | notifying (displayName : Option String)
  | opened (displayName : Option String)
  | failed (e : McpError)

structure Opening where
  dialogue : Dialogue
  phase : OpenPhase

inductive OpenAction
  /-- A step of the connection, of its calls or of the server. -/
  | dialogue (a : DialogueAction)
  /-- `open` calls `request`. -/
  | begin
  /-- `request` has returned, -/
  | answered
  /-- and `notify`. -/
  | notified

namespace Opening

def init (now : Nat) : Opening := ⟨.init now, .spawned⟩

/-- New calls, and the end of a future, are up to those who have the
connection. -/
def isCallers : DialogueAction → Bool
  | .client (.request _ _ _) | .client (.notify _ _ _) | .client (.drop _) | .client (.dropNotify _) => true
  | _ => false

/-- Who may take a step. A connection that was not opened is gone. -/
def permits (o : Opening) (a : DialogueAction) : Bool :=
  match o.phase with
  | .opened _ => true
  | .spawned | .initializing | .notifying _ => !isCallers a
  | .failed _ => false

def step (cfg : ConnectionConfig) (server : LineServer) (o : Opening) : OpenAction → Option Opening
  | .dialogue a =>
    if o.permits a then (o.dialogue.step cfg server a).map fun d => { o with dialogue := d } else none
  | .begin =>
    match o.phase with
    | .spawned =>
      (o.dialogue.step cfg server (.client (.request 0 "initialize" initParams))).map fun d => ⟨d, .initializing⟩
    | _ => none
  | .answered =>
    match o.phase, (o.dialogue.connection.calls 0).phase with
    | .initializing, .returned (.ok initResult) =>
      (o.dialogue.step cfg server (.client (.notify 0 "notifications/initialized" (.object [])))).map fun d =>
        ⟨d, .notifying (displayName initResult)⟩
    | .initializing, .returned (.error e) => some { o with phase := .failed e }
    | _, _ => none
  | .notified =>
    match o.phase, o.dialogue.connection.notifies 0 with
    | .notifying name, .returned (.ok ()) => some { o with phase := .opened name }
    | .notifying _, .returned (.error e) => some { o with phase := .failed e }
    | _, _ => none

end Opening

end WalaStack.Impl.Mcp
