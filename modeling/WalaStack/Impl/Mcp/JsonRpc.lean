import WalaStack.Rust.Json

/-!
# JSON-RPC messages

`walastack-mcp/src/jsonrpc.rs`: the envelopes of requests, notifications and
responses, and `parse_incoming`. A derived `Serialize` writes a struct as an
object of its fields in order; a derived `Deserialize` reads one from an
object, ignoring unknown members, or from an array of its fields in order.
-/

namespace WalaStack.Impl.Mcp

open WalaStack.Rust WalaStack.Rust.Json

/-- A JSON-RPC 2.0 request envelope. -/
structure JsonRpcRequest where
  id : U64
  method : String
  params : Value

/-- The value that a `JsonRpcRequest` is serialized as. -/
def JsonRpcRequest.toValue (req : JsonRpcRequest) : Value :=
  .object [("jsonrpc", .string "2.0"), ("id", .number (.posInt req.id)), ("method", .string req.method),
    ("params", req.params)]

/-- A JSON-RPC 2.0 notification. -/
structure JsonRpcNotification where
  method : String
  params : Value

/-- The value that a `JsonRpcNotification` is serialized as. -/
def JsonRpcNotification.toValue (n : JsonRpcNotification) : Value :=
  .object [("jsonrpc", .string "2.0"), ("method", .string n.method), ("params", n.params)]

/-- A JSON-RPC 2.0 error object. -/
structure JsonRpcError where
  code : Int
  message : String
  data : Option Value

/-- A JSON-RPC 2.0 response envelope. -/
structure JsonRpcResponse where
  id : U64
  result : Option Value
  error : Option JsonRpcError

/-- A required field of a struct. -/
def required {α : Type} (name : String) (decode : Value → Option α) : Option Value → Except Error α
  | none => .error (.missingField name)
  | some v =>
    match decode v with
    | some a => .ok a
    | none => .error (.invalidType name)

/-- `#[serde(default)] Option<Value>` -/
def optional (field : Option Value) : Option Value := field.bind Value.asOption

def JsonRpcError.ofFields (code message data : Option Value) : Except Error JsonRpcError := do
  let code ← required "code" Value.asI32 code
  let message ← required "message" Value.asStr message
  return ⟨code, message, optional data⟩

/-- `serde_json::from_value::<JsonRpcError>` -/
def JsonRpcError.fromValue : Value → Except Error JsonRpcError
  | v@(.object _) => ofFields (v.get "code") (v.get "message") (v.get "data")
  | .array elems => if elems.length ≤ 3 then ofFields elems[0]? elems[1]? elems[2]? else .error .invalidLength
  | _ => .error (.invalidType "struct JsonRpcError")

/-- `#[serde(default)] Option<JsonRpcError>` -/
def optionalError : Option Value → Except Error (Option JsonRpcError)
  | none | some .null => .ok none
  | some v => some <$> JsonRpcError.fromValue v

def JsonRpcResponse.ofFields (id result error : Option Value) : Except Error JsonRpcResponse := do
  let id ← required "id" Value.asU64 id
  let error ← optionalError error
  return ⟨id, optional result, error⟩

/-- `serde_json::from_value::<JsonRpcResponse>` -/
def JsonRpcResponse.fromValue : Value → Except Error JsonRpcResponse
  | v@(.object _) => ofFields (v.get "id") (v.get "result") (v.get "error")
  | .array elems => if elems.length ≤ 3 then ofFields elems[0]? elems[1]? elems[2]? else .error .invalidLength
  | _ => .error (.invalidType "struct JsonRpcResponse")

/-- One incoming JSON-RPC message. -/
inductive IncomingMessage
  | response (r : JsonRpcResponse)
  | notification (method : String) (params : Value)

/-- Parse a single line of newline-delimited JSON, with `fromStr` for
`serde_json::from_str`. -/
def parseIncoming (fromStr : String → Except Error Value) (line : String) :
    Except Error IncomingMessage := do
  let value ← fromStr line
  if (value.get "id").isSome then
    let response ← JsonRpcResponse.fromValue value
    return .response response
  else
    let method := ((value.get "method").bind Value.asStr).getD ""
    let params := (value.get "params").getD .null
    return .notification method params

end WalaStack.Impl.Mcp
