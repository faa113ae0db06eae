import Mathlib.Data.List.AList
import WalaStack.Impl.Auth.Jwt
import WalaStack.Rust.Utf8

/-!
# The environment of an MCP server

`EnvVar`, `McpServerSpec` and its builders of `walastack-mcp/src/config.rs`, and
of `walastack-mcp/src/service.rs` `resolve_env` and `McpServerService::start` up to its
call of `StdioConnection::open`. The `Debug` text of a `str` is a parameter.
-/

namespace WalaStack.Impl.Mcp

open WalaStack.Rust WalaStack.Impl.Auth

inductive EnvVar
  | fromSecret (var secretName : String)
  | literal (var value : String)

def EnvVar.var : EnvVar → String
  | .fromSecret var _ => var
  | .literal var _ => var

inductive TransportSpec
  | stdio (command : String) (args : List String)

/-- What a start reads of it. -/
structure McpServerSpec where
  id : String
  transport : TransportSpec
  env : List EnvVar
  requestTimeout : Option Duration

namespace McpServerSpec

def new (id : String) : McpServerSpec := ⟨id, .stdio "" [], [], none⟩

def withTransport (spec : McpServerSpec) (transport : TransportSpec) : McpServerSpec :=
  { spec with transport }

def withEnv (spec : McpServerSpec) (entry : EnvVar) : McpServerSpec := { spec with env := spec.env ++ [entry] }

def withEnvFromSecret (spec : McpServerSpec) (var secretName : String) : McpServerSpec :=
  spec.withEnv (.fromSecret var secretName)

def withEnvLiteral (spec : McpServerSpec) (var value : String) : McpServerSpec := spec.withEnv (.literal var value)

def withRequestTimeout (spec : McpServerSpec) (timeout : Duration) : McpServerSpec :=
  { spec with requestTimeout := some timeout }

end McpServerSpec

/-- What a start reads of the `McpConfig`. -/
structure McpConfig where
  defaultRequestTimeout : Duration

structure ServiceError where
  message : String
deriving DecidableEq

/-- `HashMap<String, String>` -/
abbrev EnvMap := AList fun _ : String => String

section

variable (debug : String → String)

def secretNotRegistered (id secretName : String) : ServiceError :=
  ⟨"MCP server " ++ id ++ " requires secret " ++ debug secretName ++ " which is not registered"⟩

def secretNotUtf8 (secretName var : String) : ServiceError :=
  ⟨"secret " ++ debug secretName ++ " is not valid UTF-8 for env var " ++ debug var⟩

def secretsProviderMissing : ServiceError := ⟨"SecretsProvider capability not registered"⟩

/-- The loop of `resolve_env`. -/
def resolveEntries (id : String) (secrets : SecretsProvider) : List EnvVar → EnvMap → Except ServiceError EnvMap
  | [], out => .ok out
  | .fromSecret var secretName :: entries, out =>
    match secrets secretName with
    | none => .error (secretNotRegistered debug id secretName)
    | some bytes =>
      match fromUtf8 bytes with
      | none => .error (secretNotUtf8 debug secretName var)
      | some value => resolveEntries id secrets entries (out.insert var value)
  | .literal var value :: entries, out => resolveEntries id secrets entries (out.insert var value)

/-- `resolve_env`, by the capability that the runtime has. -/
def resolveEnv (provider : Option SecretsProvider) (spec : McpServerSpec) : Except ServiceError EnvMap :=
  match spec.env, provider with
  | [], _ => .ok ∅
  | _ :: _, none => .error secretsProviderMissing
  | entry :: entries, some secrets => resolveEntries debug spec.id secrets (entry :: entries) ∅

/-- The arguments of `StdioConnection::open`. -/
structure OpenArguments where
  server : String
  command : String
  args : List String
  env : EnvMap
  requestTimeout : Duration

/-- What `McpServerService::start` opens the connection with. -/
def McpServerSpec.openArguments (config : McpConfig) (provider : Option SecretsProvider) (spec : McpServerSpec) :
    Except ServiceError OpenArguments :=
  match resolveEnv debug provider spec, spec.transport with
  | .error e, _ => .error e
  | .ok env, .stdio command args =>
    .ok ⟨spec.id, command, args, env, spec.requestTimeout.getD config.defaultRequestTimeout⟩

end

end WalaStack.Impl.Mcp
