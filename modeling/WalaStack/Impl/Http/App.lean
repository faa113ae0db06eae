import WalaStack.Impl.Http.OpenApi

/-!
# The application builder

The routes of an `App` of `walastack-app/src/lib.rs`. A handler in the router
is one of the application, or the one that serves the document of the routes it
was given.
-/

namespace WalaStack.Impl.Http

open WalaStack.Impl (OpenApi.RouteSpec OpenApi.Method)

variable {H Operation : Type}

inductive BoxedHandler (H Operation : Type)
  | handler (h : H)
  | openapi (routes : List (OpenApi.RouteSpec Operation))

structure App (H Operation : Type) where
  router : Router (BoxedHandler H Operation)
  openapiRoutes : List (OpenApi.RouteSpec Operation)

def methodFromOpenapi : OpenApi.Method → HttpMethod
  | .get => .get
  | .post => .post
  | .put => .put
  | .delete => .delete
  | .patch => .patch
  | .options => .options
  | .head => .head
  | .trace => .trace

/-- What a chain calls on the application. -/
inductive AppCall (H Operation : Type)
  | get (path : Path) (h : H)
  | post (path : Path) (h : H)
  | put (path : Path) (h : H)
  | delete (path : Path) (h : H)
  | openapiRoute (h : H) (spec : OpenApi.RouteSpec Operation)
  | openapiServeAt (path : Path)

namespace App

def new : App H Operation := ⟨.new, []⟩

def addRoute (matchit : Matchit) (app : App H Operation) (method : HttpMethod) (path : Path) (h : H) :
    Option (App H Operation) :=
  (app.router.route matchit method path (.handler h)).map fun router => { app with router }

def openapiRoute (matchit : Matchit) (app : App H Operation) (h : H) (spec : OpenApi.RouteSpec Operation) :
    Option (App H Operation) :=
  let method := methodFromOpenapi spec.method
  let path := spec.path
  let app := { app with openapiRoutes := app.openapiRoutes ++ [spec] }
  app.addRoute matchit method path h

def openapiServeAt (matchit : Matchit) (app : App H Operation) (path : Path) : Option (App H Operation) :=
  let routes := app.openapiRoutes
  let app := { app with openapiRoutes := [] }
  (app.router.route matchit .get path (.openapi routes)).map fun router => { app with router }

/-- One call of the chain; `none` is a panic. -/
def call (matchit : Matchit) (app : App H Operation) : AppCall H Operation → Option (App H Operation)
  | .get path h => app.addRoute matchit .get path h
  | .post path h => app.addRoute matchit .post path h
  | .put path h => app.addRoute matchit .put path h
  | .delete path h => app.addRoute matchit .delete path h
  | .openapiRoute h spec => app.openapiRoute matchit h spec
  | .openapiServeAt path => app.openapiServeAt matchit path

end App

end WalaStack.Impl.Http
