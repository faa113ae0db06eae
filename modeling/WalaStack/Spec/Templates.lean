import WalaStack.Impl.Http.App

/-!
# Templates

The document should list an operation under the template on which the router
matches the requests of its handler.
-/

namespace WalaStack.Spec.Http

open WalaStack.Impl.Http WalaStack.Impl.OpenApi

/-- A parameter has no literal text before it in its segment. -/
def FillsSegments (path : Path) : Prop :=
  ∀ segment ∈ path.splitOn '/', ':' ∈ segment → [':'] <+: segment

instance (path : Path) : Decidable (FillsSegments path) := by
  unfold FillsSegments
  infer_instance

/-- `matchit`'s templates: an empty router takes literal text followed by a
parameter. -/
def AdmitsPrefix (matchit : Matchit) : Prop :=
  ∀ text name : List Char, (∀ c ∈ text, c ≠ '{' ∧ c ≠ '}') → name ≠ [] → (∀ c ∈ name, c ∉ ['{', '}', '*', '/']) →
    matchit.accepts [] ('/' :: text ++ '{' :: name ++ ['}']) = true

variable {H Operation : Type}

/-- The document of the routes lists the operation under this key. -/
def ListedAs (routes : List (RouteSpec Operation)) (key : Path) (spec : RouteSpec Operation) : Prop :=
  renderPaths routes key spec.method.asStr = some spec.operation

/-- The router has the handler under this template. -/
def RoutedAs (app : App H Operation) (spec : RouteSpec Operation) (template : Path) (h : H) : Prop :=
  (template, .handler h) ∈ app.router.routes (methodFromOpenapi spec.method)

end WalaStack.Spec.Http
