import WalaStack.Spec.Routing
import WalaStack.Spec.Templates

/-!
# A document that describes its application

A client that knows only the served document should reach, under each operation
that it lists, the handler that the operation was registered with (`Describes`).
-/

namespace WalaStack.Spec.Http

open WalaStack.Impl.Http WalaStack.Impl.OpenApi

variable {Ctx : Type}

/-- What is served at `path` is the document of these routes, and it is true. -/
structure Describes (platform : Platform Ctx) (calls : List (AppCall (Handler Ctx) Metadata))
    (router : Router (BoxedHandler (Handler Ctx) Metadata)) (path : Path) (routes : List (RouteSpec Metadata))
    (config : OpenApiConfig) : Prop where
  served : ∀ runtime clock req taken bytes, platform.openApiConfig runtime = some config →
    platform.toVec (renderDocument config routes) = .ok bytes → req.parts.method = .get →
      platform.matching.atPath (templates calls .get) req.parts.path = some (translatePath path, taken) →
        dispatchRequest platform router runtime clock req = (Response.new bytes).withContentType "application/json"
  listed : ListsEach routes (renderDocument config routes)
  /-- Each operation is one that a call has registered, and its handler answers. -/
  answered : ∀ e ∈ operations (renderDocument config routes), ∃ h spec, AppCall.openapiRoute h spec ∈ calls ∧
    DescribesRoute e spec ∧
      AnsweredBy platform calls router (methodFromOpenapi spec.method) (translatePath spec.path) (.handler h)
  /-- Its key is the template that the handler is under, if and only if no
  parameter has literal text before it. -/
  keyed : ∀ e ∈ operations (renderDocument config routes), ∀ spec ∈ routes, DescribesRoute e spec →
    (e.path = String.ofList (translatePath spec.path) ↔ FillsSegments spec.path)

end WalaStack.Spec.Http
