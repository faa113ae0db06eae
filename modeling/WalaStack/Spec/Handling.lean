import WalaStack.Impl.Http.Handler
import WalaStack.Spec.Auth
import WalaStack.Spec.Capabilities

/-!
# What a handler lets through

A handler runs its function when all its parameters are extracted. With the
extractors that the program provides, a client should not be able to make one
fail on the server's side (`ClientError`), and a function that takes `Auth`
should run for authenticated requests only (`Authenticated`).
-/

namespace WalaStack.Spec.Http

open WalaStack.Rust WalaStack.Rust.Json WalaStack.Impl.Http WalaStack.Impl.Auth WalaStack.Spec.Auth

variable {Ctx F α β : Type}

/-! ## Extractors -/

/-- A condition on the lookups of capabilities. -/
abbrev LookupCondition (Ctx : Type) := {T : Type} → (Ctx → Nat → Option T) → Prop

/-- No condition. -/
def anyLookup : LookupCondition Ctx := fun _ => True

/-- The extractors from the parts that the program provides, of capabilities that
meet a condition. -/
inductive BuiltInParts (ok : LookupCondition Ctx) : {α : Type} → FromRequestParts Ctx α → Prop
  | path {T E : Type} (fromStr : Path → Except E T) (display : E → String) : BuiltInParts ok (.path fromStr display)
  | query {T E : Type} (fromStr : String → Except E T) (display : E → String) :
    BuiltInParts ok (.query fromStr display)
  | method : BuiltInParts ok .method
  | uri : BuiltInParts ok .uri
  | headers : BuiltInParts ok .headers
  | cap {T : Type} (capability : Ctx → Nat → Option T) (typeName : String) : ok capability →
    BuiltInParts ok (.cap capability typeName)
  | auth (lib : Jsonwebtoken) (context : Ctx → AuthContext) : BuiltInParts ok (.auth lib context)

inductive BuiltInRequest (ok : LookupCondition Ctx) : {α : Type} → FromRequest Ctx α → Prop
  | ofParts {α : Type} {p : FromRequestParts Ctx α} : BuiltInParts ok p → BuiltInRequest ok (.ofParts p)
  | request : BuiltInRequest ok .request
  | json {T E : Type} (fromSlice : List UInt8 → Except E T) (display : E → String) :
    BuiltInRequest ok (.json fromSlice display)
  | bytes : BuiltInRequest ok .bytes

/-- All parameters are extracted by what the program provides. -/
def BuiltIn (ok : LookupCondition Ctx) : {F : Type} → Params Ctx F → Prop
  | _, .last p => BuiltInRequest ok p
  | _, .cons p rest => BuiltInParts ok p ∧ BuiltIn ok rest

/-- `e` extracts one of the parameters. -/
inductive Takes (e : FromRequestParts Ctx β) : {F : Type} → Params Ctx F → Prop
  | last : Takes e (.last (.ofParts e))
  | here {F : Type} {rest : Params Ctx F} : Takes e (.cons e rest)
  | there {α F : Type} {p : FromRequestParts Ctx α} {rest : Params Ctx F} : Takes e rest → Takes e (.cons p rest)

/-! ## Extraction -/

/-- The first rejection, or what the function responds with. -/
def extract : {F : Type} → Params Ctx F → F → (clock : Nat → Nat) → Parts Ctx → List UInt8 → Except Rejection Response
  | _, .last p, f, clock, parts, body => (p (clock 0) ⟨parts, body⟩).map f
  | _, .cons p rest, f, clock, parts, body =>
    match p (clock 0) parts with
    | (.ok a, parts) => extract rest (f a) (fun i => clock (i + 1)) parts body
    | (.error rejection, _) => .error rejection

/-- The router leads a request to a handler. -/
def LeadsTo (platform : Platform Ctx) (router : Router (BoxedHandler (Handler Ctx) Metadata)) (h : Handler Ctx)
    (req : Request Ctx) (pathParams : PathParams) : Prop :=
  router.dispatch platform.matching req.parts.method req.parts.path = some (.handler h, pathParams)

/-- The one response to a request that is not authenticated. -/
def unauthorized : Response := (Response.new (asBytes "Unauthorized")).withStatus .unauthorized

/-- The request has a bearer token that is signed with the configured secret,
and its payload is of `Claims` and passes the codec's validation at a time. -/
def Authenticated {lib : Jsonwebtoken} (doc : Documented lib) (context : AuthContext) (headers : HeaderMap) (now : Nat) :
    Prop :=
  ∃ settings secrets secret token payload claims,
    context.settings = some settings ∧ context.secretsProvider = some secrets ∧ secrets settings.keyName = some secret ∧
      AuthParts.bearerToken ⟨some context, headers.lookup "authorization"⟩ = .ok token ∧
      doc.payloadOf secret token = some payload ∧
      doc.read.Passes (JwtCodec.validation ⟨secrets, settings.keyName, settings.config⟩) payload now ∧
      Claims.fromValue payload = .ok claims

end WalaStack.Spec.Http
