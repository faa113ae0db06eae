import WalaStack.Impl.Http.Extract

/-!
# Path extraction

What a handler gets from `Path<T>` should be determined by the request: the
same in every order in which the parameters are iterated (`OrderIndependent`).
-/

namespace WalaStack.Spec.Http

open WalaStack.Impl.Http

variable {H T E : Type}

/-- The extraction is the same in all orders. -/
def OrderIndependent (matching : Matching) (fromStr : Path → Except E T) (display : E → String) (r : Router H)
    (method : HttpMethod) (path : Path) : Prop :=
  ∀ handler params, r.dispatch matching method path = some (handler, params) →
    ∀ order order' : IterationOrder params,
      pathFromRequestParts fromStr display (some ⟨params, order⟩) =
        pathFromRequestParts fromStr display (some ⟨params, order'⟩)

/-- What a parameter is parsed to, or the text of the error. -/
def parsed (fromStr : Path → Except E T) (display : E → String) (value : Path) : Except String T :=
  (fromStr value).mapError display

/-- The parameters that the path gives are all parsed to one value, or refused
with one error. -/
def ParsedAlike (matching : Matching) (fromStr : Path → Except E T) (display : E → String) (r : Router H)
    (method : HttpMethod) (path : Path) : Prop :=
  ∀ handler params, r.dispatch matching method path = some (handler, params) →
    ∀ entry ∈ params.entries, ∀ entry' ∈ params.entries,
      parsed fromStr display entry.2 = parsed fromStr display entry'.2

/-- The segments of a template in which there is a parameter. -/
def parameterSegments (template : Path) : List (List Char) := (template.splitOn '/').filter fun s => '{' ∈ s

/-- `matchit`'s parameters: at most one of a segment. -/
def OnePerSegment (matching : Matching) : Prop :=
  ∀ templates path template params, matching.atPath templates path = some (template, params) →
    template ∈ templates ∧ params.length ≤ (parameterSegments template).length

end WalaStack.Spec.Http
