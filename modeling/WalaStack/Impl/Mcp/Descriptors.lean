import WalaStack.Impl.Mcp.Connection

/-!
# Descriptors of tools and resources

The derived `Deserialize` implementations of `walastack-mcp/src/descriptors.rs`,
and the methods of `StdioMcp` that read the results of a server:
`list_tools`, `list_resources` and `read_resource` of
`walastack-mcp/src/stdio.rs`, given the connection that they look up. A derived
`Deserialize` reads a struct by the names of its fields, from an object, or from
an array of them in order. Of several errors in one value, which is returned is
not modelled.
-/

namespace WalaStack.Impl.Mcp

open WalaStack.Rust WalaStack.Rust.Json

structure ToolDescriptor where
  name : String
  description : Option String
  inputSchema : Option Value
  outputSchema : Option Value

structure ResourceDescriptor where
  uri : String
  name : Option String
  description : Option String
  mimeType : Option String
deriving DecidableEq, Repr

inductive ResourcePayload
  | text (text : String)
  | blob (blob : String)
deriving DecidableEq, Repr

structure ResourceContent where
  uri : String
  mimeType : Option String
  payload : ResourcePayload
deriving DecidableEq, Repr

/-- Of `McpError`, what these methods return: `Serialization` has the text of
the decoding error. -/
inductive McpClientError
  | unknownServer (server : String)
  | serialization (e : Error)
  | connection (e : McpError)

/-- `McpError::Transport(..)` -/
def McpClientError.transport (message : String) : McpClientError := .connection (.transport message)

/-! ## Decoding -/

def ToolDescriptor.ofFields (name description inputSchema outputSchema : Option Value) :
    Except Error ToolDescriptor := do
  let name ← required "name" Value.asStr name
  let description ← optionalString "description" description
  return ⟨name, description, optional inputSchema, optional outputSchema⟩

/-- `serde_json::from_value::<ToolDescriptor>` -/
def ToolDescriptor.fromValue : Value → Except Error ToolDescriptor
  | v@(.object _) => ofFields (v.get "name") (v.get "description") (v.get "input_schema") (v.get "output_schema")
  | .array (name :: rest) =>
    if rest.length ≤ 3 then ofFields (some name) rest[0]? rest[1]? rest[2]? else .error .invalidLength
  | .array [] => .error .invalidLength
  | _ => .error (.invalidType "struct ToolDescriptor")

def ResourceDescriptor.ofFields (uri name description mimeType : Option Value) :
    Except Error ResourceDescriptor := do
  let uri ← required "uri" Value.asStr uri
  let name ← optionalString "name" name
  let description ← optionalString "description" description
  let mimeType ← optionalString "mime_type" mimeType
  return ⟨uri, name, description, mimeType⟩

/-- `serde_json::from_value::<ResourceDescriptor>` -/
def ResourceDescriptor.fromValue : Value → Except Error ResourceDescriptor
  | v@(.object _) => ofFields (v.get "uri") (v.get "name") (v.get "description") (v.get "mime_type")
  | .array (uri :: rest) =>
    if rest.length ≤ 3 then ofFields (some uri) rest[0]? rest[1]? rest[2]? else .error .invalidLength
  | .array [] => .error .invalidLength
  | _ => .error (.invalidType "struct ResourceDescriptor")

/-- `serde_json::from_value::<Vec<T>>` -/
def vecFromValue {α : Type} (fromValue : Value → Except Error α) : Value → Except Error (List α)
  | .array elems => elems.mapM fromValue
  | _ => .error (.invalidType "a sequence")

/-! ## The methods -/

/-- `conn.request(method, params).await` -/
abbrev Request := String → Value → Except McpError Value

/-- `connections.read().await.get(&server).cloned()`, or `UnknownServer`. -/
def connected (conn : Option Request) (server : String) : Except McpClientError Request :=
  match conn with
  | some request => .ok request
  | none => .error (.unknownServer server)

/-- `result.get(key).cloned().ok_or_else(..)` -/
def member (result : Value) (key message : String) : Except McpClientError Value :=
  match result.get key with
  | some raw => .ok raw
  | none => .error (.transport message)

def listTools (conn : Option Request) (server : String) : Except McpClientError (List ToolDescriptor) := do
  let request ← connected conn server
  let result ← (request "tools/list" (.object [])).mapError .connection
  let raw ← member result "tools" "tools/list result missing `tools`"
  (vecFromValue ToolDescriptor.fromValue raw).mapError .serialization

def listResources (conn : Option Request) (server : String) : Except McpClientError (List ResourceDescriptor) := do
  let request ← connected conn server
  let result ← (request "resources/list" (.object [])).mapError .connection
  let raw ← member result "resources" "resources/list result missing `resources`"
  (vecFromValue ResourceDescriptor.fromValue raw).mapError .serialization

/-- The first entry of `contents`. -/
def firstContent (result : Value) : Except McpClientError Value :=
  match result.get "contents" with
  | some (.array (first :: _)) => .ok first
  | some (.array []) => .error (.transport "resources/read returned empty contents")
  | _ => .error (.transport "resources/read result missing `contents` array")

def payloadOf (first : Value) : Except McpClientError ResourcePayload :=
  match (first.get "text").bind Value.asStr, (first.get "blob").bind Value.asStr with
  | some text, _ => .ok (.text text)
  | none, some blob => .ok (.blob blob)
  | none, none => .error (.transport "resources/read content has neither text nor blob")

def readResource (conn : Option Request) (server uri : String) : Except McpClientError ResourceContent := do
  let request ← connected conn server
  let result ← (request "resources/read" (.object [("uri", .string uri)])).mapError .connection
  let first ← firstContent result
  let mimeType := (first.get "mimeType").bind Value.asStr
  let payload ← payloadOf first
  return ⟨uri, mimeType, payload⟩

end WalaStack.Impl.Mcp
