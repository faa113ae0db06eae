import Mathlib.Data.List.Forall2
import WalaStack.Impl.Http.OpenApi

/-!
# Normal paths

`normalize_path` is meant to go by segments: a parameter `:x` is written
`{x}`, and all else, the slashes too, stays (`SegmentWise`).
-/

namespace WalaStack.Spec.Http

open WalaStack.Impl.Http

/-- What becomes of a segment: `:x` is replaced by `{x}`, and any other segment
is unchanged. -/
inductive Normalized : List Char → List Char → Prop
  | parameter (x : List Char) : Normalized (':' :: x) ('{' :: x ++ ['}'])
  | literal {segment : List Char} (h : ¬ [':'] <+: segment) : Normalized segment segment

structure SegmentWise (normalize : Path → Path) : Prop where
  /-- The segments of the path are normalized, and joined again. -/
  joined : ∀ path, ∃ segments, List.Forall₂ Normalized (path.splitOn '/') segments ∧
    normalize path = ['/'].intercalate segments
  /-- There are as many slashes, -/
  slashes : ∀ path, (normalize path).count '/' = path.count '/'
  /-- and each stays between what becomes of the path on either side. -/
  between : ∀ left right, normalize (left ++ '/' :: right) = normalize left ++ '/' :: normalize right
  idempotent : ∀ path, normalize (normalize path) = normalize path

end WalaStack.Spec.Http
