import WalaStack.Impl.Mcp.JsonRpc

/-!
# Tokens

`JwtCodec` and the extractor `Auth` of `walastack-auth/src/lib.rs`. The library
`jsonwebtoken` is a parameter, with the `Validation` that the codec hands it; a
payload is the JSON value that a type is serialized as. Times are Unix seconds,
and each call that reads the clock is given its time.
-/

namespace WalaStack.Impl.Auth

open WalaStack.Rust WalaStack.Rust.Json
open WalaStack.Impl.Mcp (required)

abbrev Token := List Char

abbrev Secret := List UInt8

/-- `dyn SecretsProvider` -/
abbrev SecretsProvider := String → Option Secret

inductive AuthError
  | secretsProviderMissing
  | secretNotFound (name : String)
  | jwt (message : String)
deriving DecidableEq, Repr

/-! ## `jsonwebtoken` -/

/-- What the codec sets of `Validation`, and the defaults that matter to it. -/
structure Validation where
  requiredSpecClaims : List String
  leeway : Nat
  validateExp : Bool
  validateAud : Bool
  iss : Option (List String)
  aud : Option (List String)
deriving DecidableEq, Repr

namespace Validation

/-- `Validation::new(Algorithm::HS256)` -/
def new : Validation where
  requiredSpecClaims := ["exp"]
  leeway := 60
  validateExp := true
  validateAud := true
  iss := none
  aud := none

def setIssuer (v : Validation) (items : List String) : Validation := { v with iss := some items }

def setAudience (v : Validation) (items : List String) : Validation := { v with aud := some items }

end Validation

structure Jsonwebtoken where
  /-- `encode(&Header::new(Algorithm::HS256), claims, &key)` -/
  encode : Secret → Value → Except String Token
  /-- `decode::<C>(token, &key, &validation)`, by the `Deserialize` of `C`. -/
  decode : {C : Type} → (Value → Except Error C) → Token → Secret → Validation → Nat → Except String C

/-! ## Claims -/

structure Claims where
  sub : String
  iss : String
  aud : Option String
  exp : Int
  iat : Int
  roles : List String
deriving DecidableEq, Repr

namespace Claims

/-- The value that `Claims` are serialized as. -/
def toValue (claims : Claims) : Value :=
  .object ([("sub", .string claims.sub), ("iss", .string claims.iss)] ++
    (claims.aud.toList.map fun aud => ("aud", .string aud)) ++
      [("exp", .ofI64 claims.exp), ("iat", .ofI64 claims.iat), ("roles", .array (claims.roles.map .string))])

/-- A role of the list. -/
def roleOf (v : Value) : Except Error String :=
  match v.asStr with
  | some role => .ok role
  | none => .error (.invalidType "roles")

/-- `#[serde(default)] Vec<String>` -/
def rolesOf : Option Value → Except Error (List String)
  | none => .ok []
  | some (.array elems) => elems.mapM roleOf
  | some _ => .error (.invalidType "roles")

def ofFields (sub iss aud exp iat roles : Option Value) : Except Error Claims := do
  let sub ← required "sub" Value.asStr sub
  let iss ← required "iss" Value.asStr iss
  let aud ← optionalString "aud" aud
  let exp ← required "exp" Value.asI64 exp
  let iat ← required "iat" Value.asI64 iat
  let roles ← rolesOf roles
  return ⟨sub, iss, aud, exp, iat, roles⟩

/-- The derived `Deserialize` of `Claims`. -/
def fromValue : Value → Except Error Claims
  | v@(.object _) => ofFields (v.get "sub") (v.get "iss") (v.get "aud") (v.get "exp") (v.get "iat") (v.get "roles")
  | .array elems =>
    if 5 ≤ elems.length ∧ elems.length ≤ 6 then
      ofFields elems[0]? elems[1]? elems[2]? elems[3]? elems[4]? elems[5]?
    else .error .invalidLength
  | _ => .error (.invalidType "struct Claims")

end Claims

/-! ## `JwtCodec` -/

structure JwtConfig where
  issuer : String
  audience : Option String
  defaultTtl : Duration
deriving DecidableEq, Repr

namespace JwtConfig

def new (issuer : String) : JwtConfig := ⟨issuer, none, .fromSecs 3600⟩

def withAudience (config : JwtConfig) (audience : String) : JwtConfig := { config with audience := some audience }

def withDefaultTtl (config : JwtConfig) (ttl : Duration) : JwtConfig := { config with defaultTtl := ttl }

end JwtConfig

structure JwtCodec where
  secrets : SecretsProvider
  keyName : String
  config : JwtConfig

namespace JwtCodec

/-- `JwtCodec::from_runtime`, by the capability of the runtime. -/
def fromRuntime (capability : Option SecretsProvider) (keyName : String) (config : JwtConfig) :
    Except AuthError JwtCodec :=
  match capability with
  | none => .error .secretsProviderMissing
  | some secrets =>
    if (secrets keyName).isNone then .error (.secretNotFound keyName) else .ok ⟨secrets, keyName, config⟩

def issueWithTtl (codec : JwtCodec) (now : Int) (subject : String) (roles : List String) (ttl : Duration) : Claims :=
  -- `i64::try_from(ttl.as_secs()).unwrap_or(i64::MAX)`
  let ttlSecs : Nat := min (ttl.nanos / 1000000000) i64Max
  { sub := subject
    iss := codec.config.issuer
    aud := codec.config.audience
    -- `now.saturating_add(ttl_secs)`, of a nonnegative number
    exp := min (now + ttlSecs) i64Max
    iat := now
    roles := roles }

def issue (codec : JwtCodec) (now : Int) (subject : String) (roles : List String) : Claims :=
  codec.issueWithTtl now subject roles codec.config.defaultTtl

/-- `self.secrets.get(&self.key_name).ok_or_else(..)` -/
def secret (codec : JwtCodec) : Except AuthError Secret :=
  match codec.secrets codec.keyName with
  | some secret => .ok secret
  | none => .error (.secretNotFound codec.keyName)

/-- `claims` is what the type is serialized as. -/
def encodeCustom (lib : Jsonwebtoken) (codec : JwtCodec) (claims : Value) : Except AuthError Token := do
  let secret ← codec.secret
  (lib.encode secret claims).mapError .jwt

def encode (lib : Jsonwebtoken) (codec : JwtCodec) (claims : Claims) : Except AuthError Token :=
  codec.encodeCustom lib claims.toValue

def validation (codec : JwtCodec) : Validation :=
  let validation := Validation.new.setIssuer [codec.config.issuer]
  match codec.config.audience with
  | some audience => validation.setAudience [audience]
  | none => { validation with validateAud := false }

def decodeCustom {C : Type} (lib : Jsonwebtoken) (codec : JwtCodec) (fromValue : Value → Except Error C) (token : Token)
    (now : Nat) : Except AuthError C := do
  let secret ← codec.secret
  (lib.decode fromValue token secret codec.validation now).mapError .jwt

def decode (lib : Jsonwebtoken) (codec : JwtCodec) (token : Token) (now : Nat) : Except AuthError Claims :=
  codec.decodeCustom lib Claims.fromValue token now

end JwtCodec

/-! ## The extractor -/

structure JwtSettings where
  keyName : String
  config : JwtConfig
deriving DecidableEq, Repr

/-- What the extractor reads of a `RuntimeContext`. -/
structure AuthContext where
  settings : Option JwtSettings
  secretsProvider : Option SecretsProvider

/-- What it reads of the request: the extension, and the bytes of the header
`authorization`. -/
structure AuthParts where
  runtime : Option AuthContext
  authorization : Option (List UInt8)

inductive AuthRejection
  | missingAuthorizationHeader
  | malformedAuthorizationHeader
  | invalidToken
  | missingRuntimeContext
  | missingJwtSettings
  | secretsProviderMissing
  | secretNotFound (name : String)
deriving DecidableEq, Repr

def AuthRejection.fromConstructionError : AuthError → AuthRejection
  | .secretsProviderMissing => .secretsProviderMissing
  | .secretNotFound name => .secretNotFound name
  | .jwt _ => .invalidToken

/-- `HeaderValue::to_str`: visible ASCII and tabs only. -/
def headerToStr (bytes : List UInt8) : Option (List Char) :=
  if bytes.all fun b => (32 ≤ b && b < 127) || b == 9 then some (bytes.map fun b => Char.ofNat b.toNat) else none

/-- `str::trim` -/
def trim (text : List Char) : List Char :=
  ((text.dropWhile Char.isWhitespace).reverse.dropWhile Char.isWhitespace).reverse

namespace AuthParts

/-- The codec that the extractor constructs. -/
def codec (parts : AuthParts) : Except AuthRejection JwtCodec :=
  match parts.runtime with
  | none => .error .missingRuntimeContext
  | some runtime =>
    match runtime.settings with
    | none => .error .missingJwtSettings
    | some settings =>
      (JwtCodec.fromRuntime runtime.secretsProvider settings.keyName settings.config).mapError
        AuthRejection.fromConstructionError

/-- The token of the header. -/
def bearerToken (parts : AuthParts) : Except AuthRejection Token :=
  match parts.authorization with
  | none => .error .missingAuthorizationHeader
  | some bytes =>
    match headerToStr bytes with
    | none => .error .malformedAuthorizationHeader
    | some header =>
      match ("Bearer ".toList.isPrefixOf? header).or ("bearer ".toList.isPrefixOf? header) with
      | none => .error .malformedAuthorizationHeader
      | some rest => if trim rest = [] then .error .malformedAuthorizationHeader else .ok (trim rest)

/-- `Auth::from_request_parts` -/
def auth (lib : Jsonwebtoken) (parts : AuthParts) (now : Nat) : Except AuthRejection Claims := do
  let codec ← parts.codec
  let token ← parts.bearerToken
  (codec.decode lib token now).mapError fun _ => .invalidToken

end AuthParts

end WalaStack.Impl.Auth
