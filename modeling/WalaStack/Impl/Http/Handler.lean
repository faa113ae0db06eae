import WalaStack.Impl.Http.Document
import WalaStack.Impl.Http.Request

/-!
# Handlers and the dispatch of a request

The `Handler` implementations of `walastack-app/src/lib.rs`, for functions of up
to five parameters, and the way of a request, its body read, from
`dispatch_request` to its handler. All parameters but the last are extracted from the parts, in order;
the last one takes the request. A function stands for what it responds with.
-/

namespace WalaStack.Impl.Http

open WalaStack.Rust WalaStack.Rust.Json WalaStack.Impl.OpenApi

variable {Ctx F α α₁ α₂ α₃ α₄ α₅ : Type}

/-- The parameters of a function `F`. -/
inductive Params (Ctx : Type) : Type → Type 1
  | last {α : Type} (p : FromRequest Ctx α) : Params Ctx (α → Response)
  | cons {α F : Type} (p : FromRequestParts Ctx α) (rest : Params Ctx F) : Params Ctx (α → F)

/-- The body of `call`; the `i`th extraction is at time `clock i`. -/
def Params.call : {F : Type} → Params Ctx F → F → (clock : Nat → Nat) → Parts Ctx → List UInt8 → Response
  | _, .last p, f, clock, parts, body =>
    match p (clock 0) ⟨parts, body⟩ with
    | .ok a => f a
    | .error rejection => rejection.intoResponse
  | _, .cons p rest, f, clock, parts, body =>
    match p (clock 0) parts with
    | (.ok a, parts) => rest.call (f a) (fun i => clock (i + 1)) parts body
    | (.error rejection, _) => rejection.intoResponse

abbrev Handler (Ctx : Type) := (clock : Nat → Nat) → Request Ctx → Response

/-- `Handler::call` -/
def Params.handler (params : Params Ctx F) (f : F) : Handler Ctx := fun clock req =>
  params.call f clock req.parts req.body

namespace Handler

def arity0 (f : Response) : Handler Ctx := fun _ _ => f

def arity1 (p : FromRequest Ctx α) (f : α → Response) : Handler Ctx := (Params.last p).handler f

def arity2 (p₁ : FromRequestParts Ctx α₁) (p₂ : FromRequest Ctx α₂) (f : α₁ → α₂ → Response) : Handler Ctx :=
  (Params.cons p₁ (.last p₂)).handler f

def arity3 (p₁ : FromRequestParts Ctx α₁) (p₂ : FromRequestParts Ctx α₂) (p₃ : FromRequest Ctx α₃)
    (f : α₁ → α₂ → α₃ → Response) : Handler Ctx :=
  (Params.cons p₁ (.cons p₂ (.last p₃))).handler f

def arity4 (p₁ : FromRequestParts Ctx α₁) (p₂ : FromRequestParts Ctx α₂) (p₃ : FromRequestParts Ctx α₃)
    (p₄ : FromRequest Ctx α₄) (f : α₁ → α₂ → α₃ → α₄ → Response) : Handler Ctx :=
  (Params.cons p₁ (.cons p₂ (.cons p₃ (.last p₄)))).handler f

def arity5 (p₁ : FromRequestParts Ctx α₁) (p₂ : FromRequestParts Ctx α₂) (p₃ : FromRequestParts Ctx α₃)
    (p₄ : FromRequestParts Ctx α₄) (p₅ : FromRequest Ctx α₅) (f : α₁ → α₂ → α₃ → α₄ → α₅ → Response) : Handler Ctx :=
  (Params.cons p₁ (.cons p₂ (.cons p₃ (.cons p₄ (.last p₅))))).handler f

end Handler

/-! ## Dispatch -/

def notFound : Response := (Response.new (asBytes "Not Found")).withStatus .notFound

def internalServerError : Response :=
  (Response.new (asBytes "Internal Server Error")).withStatus .internalServerError

/-- What a server is made of that is outside of the program, and what its
context has for `openapi_handler`. -/
structure Platform (Ctx : Type) where
  matching : Matching
  order : (params : PathParams) → IterationOrder params
  openApiConfig : Ctx → Option OpenApiConfig
  /-- `serde_json::to_vec` -/
  toVec : Value → Except Error (List UInt8)

/-- The call of a handler in the router. -/
def callHandler (platform : Platform Ctx) : BoxedHandler (Handler Ctx) Metadata → Handler Ctx
  | .handler h => h
  | .openapi routes => fun _ req =>
    match openapiHandler routes (req.parts.runtime.map platform.openApiConfig) with
    | none => internalServerError
    | some document =>
      match platform.toVec document with
      | .ok bytes => (Response.new bytes).withContentType "application/json"
      | .error _ => internalServerError

/-- A request with the extensions that `dispatch_request` inserts. -/
def inserted (platform : Platform Ctx) (runtime : Ctx) (params : PathParams) (req : Request Ctx) : Request Ctx :=
  { req with parts := { req.parts with
      runtime := some runtime
      pathParams := some ⟨params, platform.order params⟩ } }

def dispatchRequest (platform : Platform Ctx) (router : Router (BoxedHandler (Handler Ctx) Metadata)) (runtime : Ctx)
    (clock : Nat → Nat) (req : Request Ctx) : Response :=
  match router.dispatch platform.matching req.parts.method req.parts.path with
  | some (handler, params) => callHandler platform handler clock (inserted platform runtime params req)
  | none => notFound

end WalaStack.Impl.Http
