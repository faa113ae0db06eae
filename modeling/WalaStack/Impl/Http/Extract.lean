import Mathlib.Data.List.AList
import WalaStack.Impl.Http.Router

/-!
# Dispatch and path extraction

`Router::dispatch` of `walastack-router/src/lib.rs`, and the extractor `Path<T>`
of `walastack-http/src/lib.rs`. The parameters of a match go through a
`HashMap`, whose iteration order is any order of its entries. `matchit`'s
matching is outside the model: of it, the template that a path matches and the
parameters that it takes.
-/

namespace WalaStack.Impl.Http

/-- `matchit::Router::at`: the matched template of a router that holds these,
and its parameters in the order of the template. -/
structure Matching where
  atPath : List Path → Path → Option (Path × List (Path × Path))

abbrev PathParams := AList fun _ : Path => Path

/-- An order in which the map is iterated. -/
abbrev IterationOrder (params : PathParams) := { iter : List ((_ : Path) × Path) // iter.Perm params.entries }

/-- Of `ExtractionRejection`, what `Path` returns. -/
inductive ExtractionRejection
  | missingPathParams
  | pathDeserializationFailed (message : String)
deriving DecidableEq, Repr

/-- `collect()` into a `HashMap`: of two entries with one key the later stays. -/
def collectParams (params : List (Path × Path)) : PathParams :=
  params.foldl (fun map entry => map.insert entry.1 entry.2) ∅

namespace Router

variable {H : Type}

def dispatch (matching : Matching) (r : Router H) (method : HttpMethod) (path : Path) : Option (H × PathParams) :=
  let entry := r.routes method
  match matching.atPath (entry.map Prod.fst) path with
  | some (template, params) => (entry.lookup template).map fun handler => (handler, collectParams params)
  | none => none

end Router

section

variable {T E : Type}

/-- `Path::<T>::from_request_parts`, by `T::from_str` and the `Display` of its
errors: `parts` is the extension, with its order. -/
def pathFromRequestParts (fromStr : Path → Except E T) (display : E → String)
    (parts : Option ((params : PathParams) × IterationOrder params)) : Except ExtractionRejection T :=
  match parts with
  | none => .error .missingPathParams
  | some ⟨_, order⟩ =>
    match order.1.head? with
    | none => .error (.pathDeserializationFailed "no path parameter found")
    | some entry =>
      match fromStr entry.2 with
      | .ok value => .ok value
      | .error e => .error (.pathDeserializationFailed (display e))

end

end WalaStack.Impl.Http
