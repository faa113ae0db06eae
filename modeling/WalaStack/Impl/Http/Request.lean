import WalaStack.Impl.Auth.Jwt
import WalaStack.Impl.Http.Extract
import WalaStack.Rust.Utf8

/-!
# Requests, responses and extractors

`walastack-http/src/lib.rs`, the extractor `Cap` of `walastack-app/src/lib.rs` and
the trait side of `Auth` of `walastack-auth/src/lib.rs`. A body is its bytes, and
reading it does not fail. Of the extensions of a request there are the two that
the program reads. The deserializers are parameters, and so are the registries
of a `RuntimeContext`. An extractor is given the time at which it runs, which
decides what a token's claims are worth and where a rotation of providers has
come to.
-/

namespace WalaStack.Impl.Http

open WalaStack.Rust WalaStack.Impl.Auth

/-! ## Responses -/

abbrev StatusCode := Nat

namespace StatusCode

def ok : StatusCode := 200
def badRequest : StatusCode := 400
def unauthorized : StatusCode := 401
def notFound : StatusCode := 404
def internalServerError : StatusCode := 500

end StatusCode

/-- The values of the headers, by their names in lower case. -/
abbrev HeaderMap := List (String × List UInt8)

structure Response where
  status : StatusCode
  headers : HeaderMap
  body : List UInt8
deriving DecidableEq

namespace Response

/-- `Response::new(Body::new(bytes))` -/
def new (body : List UInt8) : Response := ⟨StatusCode.ok, [], body⟩

/-- `headers_mut().insert(CONTENT_TYPE, ..)`, of a response without headers. -/
def withContentType (response : Response) (value : String) : Response :=
  { response with headers := [("content-type", asBytes value)] }

def withStatus (response : Response) (status : StatusCode) : Response := { response with status := status }

end Response

/-! ### `IntoResponse` -/

def textResponse (bytes : List UInt8) : Response := (Response.new bytes).withContentType "text/plain; charset=utf-8"

def htmlIntoResponse (bytes : List UInt8) : Response := (Response.new bytes).withContentType "text/html; charset=utf-8"

def jsonSerializationError : Response :=
  ((Response.new (asBytes "\x7b\"error\":\"json serialization failed\"\x7d")).withStatus
    .internalServerError).withContentType "application/json"

/-- `toVec` is what `serde_json::to_vec` returns. -/
def jsonIntoResponse {E : Type} (toVec : Except E (List UInt8)) : Response :=
  match toVec with
  | .ok bytes => (Response.new bytes).withContentType "application/json"
  | .error _ => jsonSerializationError

def resultIntoResponse {T E : Type} (ok : T → Response) (error : E → Response) : Except E T → Response
  | .ok t => ok t
  | .error e => error e

/-! ## Requests -/

variable {Ctx : Type}

/-- `http::request::Parts`, with the extensions `RuntimeContext` and
`PathParams`. -/
structure Parts (Ctx : Type) where
  method : HttpMethod
  path : Path
  query : Option String
  headers : HeaderMap
  runtime : Option Ctx
  pathParams : Option ((params : PathParams) × IterationOrder params)

structure Request (Ctx : Type) where
  parts : Parts Ctx
  body : List UInt8

/-! ## Rejections -/

/-- `ExtractionRejection`, all of it. -/
inductive BuiltInRejection
  | path (e : ExtractionRejection)
  | queryDeserializationFailed (message : String)
  | jsonDeserializationFailed (message : String)
  | bodyReadFailed (message : String)

namespace BuiltInRejection

def status : BuiltInRejection → StatusCode
  | .path .missingPathParams | .bodyReadFailed _ => .internalServerError
  | .path (.pathDeserializationFailed _) | .queryDeserializationFailed _ | .jsonDeserializationFailed _ => .badRequest

/-- `Display` -/
def text : BuiltInRejection → String
  | .path .missingPathParams => "missing path parameters in request extensions"
  | .path (.pathDeserializationFailed message) => "invalid path parameter: " ++ message
  | .queryDeserializationFailed message => "invalid query string: " ++ message
  | .jsonDeserializationFailed message => "invalid JSON body: " ++ message
  | .bodyReadFailed message => "failed to read request body: " ++ message

def intoResponse (r : BuiltInRejection) : Response :=
  ((Response.new (asBytes r.text)).withStatus r.status).withContentType "text/plain; charset=utf-8"

end BuiltInRejection

inductive CapRejection
  | missingRuntimeContext
  | missingCapability (typeName : String)

def CapRejection.intoResponse (_ : CapRejection) : Response :=
  (Response.new (asBytes "Internal Server Error")).withStatus .internalServerError

def authStatus : AuthRejection → StatusCode
  | .missingAuthorizationHeader | .malformedAuthorizationHeader | .invalidToken => .unauthorized
  | .missingRuntimeContext | .missingJwtSettings | .secretsProviderMissing | .secretNotFound _ => .internalServerError

def authIntoResponse (r : AuthRejection) : Response :=
  let body := if authStatus r = .unauthorized then "Unauthorized" else "Internal Server Error"
  (Response.new (asBytes body)).withStatus (authStatus r)

/-- What an extractor is refused with. -/
inductive Rejection
  | builtIn (r : BuiltInRejection)
  | cap (r : CapRejection)
  | auth (r : AuthRejection)
  /-- One of the application's own types. -/
  | custom (response : Response)

def Rejection.intoResponse : Rejection → Response
  | .builtIn r => r.intoResponse
  | .cap r => r.intoResponse
  | .auth r => authIntoResponse r
  | .custom response => response

/-! ## Extractors -/

/-- `from_request_parts`, which may change the parts. -/
abbrev FromRequestParts (Ctx α : Type) := (now : Nat) → Parts Ctx → Except Rejection α × Parts Ctx

/-- `from_request` -/
abbrev FromRequest (Ctx α : Type) := (now : Nat) → Request Ctx → Except Rejection α

namespace FromRequestParts

variable {T E α : Type}

/-- An extractor that only reads the parts. -/
def reading (read : Nat → Parts Ctx → Except Rejection α) : FromRequestParts Ctx α :=
  fun now parts => (read now parts, parts)

/-- `Path<T>` -/
def path (fromStr : Path → Except E T) (display : E → String) : FromRequestParts Ctx T :=
  reading fun _ parts => (pathFromRequestParts fromStr display parts.pathParams).mapError fun e => .builtIn (.path e)

/-- `Query<T>`, by `serde_urlencoded::from_str`. -/
def query (fromStr : String → Except E T) (display : E → String) : FromRequestParts Ctx T :=
  reading fun _ parts =>
    (fromStr (parts.query.getD "")).mapError fun e => .builtIn (.queryDeserializationFailed (display e))

/-- `Method` -/
def method : FromRequestParts Ctx HttpMethod := reading fun _ parts => .ok parts.method

/-- `Uri` -/
def uri : FromRequestParts Ctx (Path × Option String) := reading fun _ parts => .ok (parts.path, parts.query)

/-- `HeaderMap` -/
def headers : FromRequestParts Ctx HeaderMap := reading fun _ parts => .ok parts.headers

/-- `Cap<T>`, by what `RuntimeContext::capability` returns at the time: a lookup may
move a counter, which all the requests share. -/
def cap (capability : Ctx → Nat → Option T) (typeName : String) : FromRequestParts Ctx T :=
  reading fun now parts =>
    match parts.runtime with
    | none => .error (.cap .missingRuntimeContext)
    | some ctx =>
      match capability ctx now with
      | none => .error (.cap (.missingCapability typeName))
      | some t => .ok t

/-- What `Auth` reads of the parts. -/
def authParts (context : Ctx → AuthContext) (parts : Parts Ctx) : AuthParts :=
  ⟨parts.runtime.map context, parts.headers.lookup "authorization"⟩

/-- `Auth` -/
def auth (lib : Jsonwebtoken) (context : Ctx → AuthContext) : FromRequestParts Ctx Claims :=
  reading fun now parts => ((authParts context parts).auth lib now).mapError .auth

end FromRequestParts

namespace FromRequest

variable {T E α : Type}

/-- Every `FromRequestParts` is a `FromRequest`. -/
def ofParts (extractor : FromRequestParts Ctx α) : FromRequest Ctx α := fun now req => (extractor now req.parts).1

/-- `Request` -/
def request : FromRequest Ctx (Request Ctx) := fun _ req => .ok req

/-- `Json<T>`, by `serde_json::from_slice`. -/
def json (fromSlice : List UInt8 → Except E T) (display : E → String) : FromRequest Ctx T := fun _ req =>
  (fromSlice req.body).mapError fun e => .builtIn (.jsonDeserializationFailed (display e))

/-- `Bytes` -/
def bytes : FromRequest Ctx (List UInt8) := fun _ req => .ok req.body

end FromRequest

end WalaStack.Impl.Http
