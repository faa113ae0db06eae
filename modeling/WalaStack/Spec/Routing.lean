import WalaStack.Impl.Http.Handler
import WalaStack.Spec.Document
import WalaStack.Framework.Transition

/-!
# Routing

What the chain that builds an application registers, and what requests should
come to of it: each is answered by the one handler whose template its path
matches, and none is answered by another (`RoutesExactly`).
-/

namespace WalaStack.Spec.Http

open WalaStack.Impl.Http WalaStack.Impl.OpenApi

variable {Ctx H Operation : Type}

structure Registration (H Operation : Type) where
  method : HttpMethod
  path : Path
  handler : BoxedHandler H Operation

/-- What a call registers, after the routes that are not served yet. -/
def registration (routes : List (RouteSpec Operation)) : AppCall H Operation → Registration H Operation
  | .get path h => ⟨.get, path, .handler h⟩
  | .post path h => ⟨.post, path, .handler h⟩
  | .put path h => ⟨.put, path, .handler h⟩
  | .delete path h => ⟨.delete, path, .handler h⟩
  | .openapiRoute h spec => ⟨methodFromOpenapi spec.method, spec.path, .handler h⟩
  | .openapiServeAt path => ⟨.get, path, .openapi routes⟩

def registrationsFrom : List (RouteSpec Operation) → List (AppCall H Operation) → List (Registration H Operation)
  | _, [] => []
  | routes, c :: calls => registration routes c :: registrationsFrom (collect routes c) calls

def registrations (calls : List (AppCall H Operation)) : List (Registration H Operation) := registrationsFrom [] calls

/-- The templates that are registered for a method. -/
def templates (calls : List (AppCall H Operation)) (method : HttpMethod) : List Path :=
  ((registrations calls).filter fun r => r.method = method).map fun r => translatePath r.path

/-- `matchit` matches a path with one of the templates that it has. -/
def MatchesHeld (matching : Matching) : Prop :=
  ∀ held path template taken, matching.atPath held path = some (template, taken) → template ∈ held

/-- The handler answers the requests of the method that `matchit` matches with
the template. -/
def AnsweredBy (platform : Platform Ctx) (calls : List (AppCall (Handler Ctx) Metadata))
    (router : Router (BoxedHandler (Handler Ctx) Metadata)) (method : HttpMethod) (template : Path)
    (handler : BoxedHandler (Handler Ctx) Metadata) : Prop :=
  ∀ runtime clock req taken, req.parts.method = method →
    platform.matching.atPath (templates calls method) req.parts.path = some (template, taken) →
      dispatchRequest platform router runtime clock req =
        callHandler platform handler clock (inserted platform runtime (collectParams taken) req)

structure RoutesExactly (platform : Platform Ctx) (calls : List (AppCall (Handler Ctx) Metadata))
    (router : Router (BoxedHandler (Handler Ctx) Metadata)) : Prop where
  /-- A method and a template have one handler. -/
  apart : (registrations calls).Pairwise fun r r' => r.method = r'.method → translatePath r.path ≠ translatePath r'.path
  answered : ∀ runtime clock req template taken,
    platform.matching.atPath (templates calls req.parts.method) req.parts.path = some (template, taken) →
      ∃ r ∈ registrations calls, r.method = req.parts.method ∧ translatePath r.path = template ∧
        dispatchRequest platform router runtime clock req =
          callHandler platform r.handler clock (inserted platform runtime (collectParams taken) req)
  unanswered : ∀ runtime clock req, platform.matching.atPath (templates calls req.parts.method) req.parts.path = none →
    dispatchRequest platform router runtime clock req = notFound

end WalaStack.Spec.Http
