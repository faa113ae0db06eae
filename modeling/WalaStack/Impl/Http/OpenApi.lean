import WalaStack.Impl.Http.Router

/-!
# The OpenAPI document

The paths of `render_document` of `walastack-openapi/src/lib.rs`. Of a route's
specification, `render_operation` reads what `operation` stands for.
-/

namespace WalaStack.Impl.OpenApi

open WalaStack.Impl.Http (Path)

inductive Method
  | get
  | post
  | put
  | delete
  | patch
  | options
  | head
  | trace
deriving DecidableEq, Repr

def Method.asStr : Method → String
  | .get => "get"
  | .post => "post"
  | .put => "put"
  | .delete => "delete"
  | .patch => "patch"
  | .options => "options"
  | .head => "head"
  | .trace => "trace"

structure RouteSpec (Operation : Type) where
  method : Method
  path : Path
  operation : Operation

/-- A segment as the loop pushes it, behind its slash. -/
def normalizeSegment : List Char → List Char
  | ':' :: rest => '{' :: rest ++ ['}']
  | segment => segment

/-- The body of the loop. -/
def pushSegment (path out segment : List Char) : List Char :=
  (if out ≠ [] ∨ ['/'] <+: path then out ++ ['/'] else out) ++ normalizeSegment segment

def normalizePath (path : Path) : Path :=
  let out := (path.splitOn '/').foldl (pushSegment path) []
  if ['/'] <+: path ∧ ['/', '/'] <+: out then out.tail else out

variable {Operation : Type}

/-- The document's `paths`: the operation under a path and a method's name. -/
def renderPaths (routes : List (RouteSpec Operation)) : Path → String → Option Operation :=
  routes.foldl (fun paths route =>
    let normalized := normalizePath route.path
    Function.update paths normalized
      (Function.update (paths normalized) route.method.asStr (some route.operation))) fun _ _ => none

end WalaStack.Impl.OpenApi
