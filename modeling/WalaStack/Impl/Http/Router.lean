import Mathlib.Logic.Function.Basic

/-!
# The router

`walastack-router/src/lib.rs`. A path is the list of its characters. The
tries of `matchit` are outside the model: of each, it has the templates that
were inserted, with their handlers, and whether `insert` takes one more.
-/

namespace WalaStack.Impl.Http

abbrev Path := List Char

/-- `http::Method` -/
inductive HttpMethod
  | get
  | post
  | put
  | delete
  | patch
  | options
  | head
  | trace
  | connect
  | extension (name : String)
deriving DecidableEq, Repr

mutual

def translatePath : Path → Path
  | [] => []
  | c :: iter => if c = ':' then '{' :: takeName iter else c :: translatePath iter

/-- The inner loop. At a `/` it breaks, and the outer loop pushes that. -/
def takeName : Path → Path
  | [] => ['}']
  | next :: iter => if next = '/' then '}' :: next :: translatePath iter else next :: takeName iter

end

/-- `matchit::Router::insert`: whether it takes a template into a router that
holds these, or returns an error. -/
structure Matchit where
  accepts : List Path → Path → Bool

structure Router (H : Type) where
  routes : HttpMethod → List (Path × H)

namespace Router

variable {H : Type}

def new : Router H := ⟨fun _ => []⟩

/-- `none` is the panic of `expect`. -/
def route (matchit : Matchit) (r : Router H) (method : HttpMethod) (path : Path) (handler : H) :
    Option (Router H) :=
  let entry := r.routes method
  let translated := translatePath path
  if matchit.accepts (entry.map Prod.fst) translated then
    some ⟨Function.update r.routes method (entry ++ [(translated, handler)])⟩
  else none

end Router

end WalaStack.Impl.Http
