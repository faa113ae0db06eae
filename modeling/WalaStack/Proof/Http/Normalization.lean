import WalaStack.Proof.Http.Templates
import WalaStack.Spec.Normalization

/-!
# Normal paths

`normalizePath` is `mapSegments` of `normalizeSegment` (`normalizePath_eq`),
which does to each segment what it should (`normalized_normalizeSegment`) and
brings in no slash.
-/

namespace WalaStack.Proof.Http

open WalaStack.Impl.Http WalaStack.Impl.OpenApi WalaStack.Spec.Http WalaStack.Segments

theorem normalizeSegment_literal {segment : List Char} (h : ¬ [':'] <+: segment) :
    normalizeSegment segment = segment := by
  unfold normalizeSegment
  split
  · rename_i rest
    exact absurd (by simp) h
  · rfl

theorem normalized_normalizeSegment (segment : List Char) : Normalized segment (normalizeSegment segment) := by
  by_cases h : [':'] <+: segment
  · obtain ⟨x, rfl⟩ := h
    exact .parameter x
  · rw [normalizeSegment_literal h]
    exact .literal h

/-- A normalized segment is no parameter of the routing syntax. -/
theorem normalizeSegment_idempotent (segment : List Char) :
    normalizeSegment (normalizeSegment segment) = normalizeSegment segment := by
  refine normalizeSegment_literal ?_
  have hn := normalized_normalizeSegment segment
  generalize normalizeSegment segment = out at hn ⊢
  cases hn with
  | parameter x => simp
  | literal h => exact h

/-- `normalize_path` goes by segments. -/
theorem normalizePath_segmentWise : SegmentWise normalizePath where
  joined path := by
    refine ⟨(path.splitOn '/').map normalizeSegment, ?_, normalizePath_eq path⟩
    rw [List.forall₂_map_right_iff]
    exact List.forall₂_same.mpr fun segment _ => normalized_normalizeSegment segment
  slashes path := by
    rw [normalizePath_eq, count_mapSegments fun _ => not_mem_normalizeSegment]
  between left right := by
    simp only [normalizePath_eq, mapSegments_append_cons]
  idempotent path := by
    simp only [normalizePath_eq, mapSegments_mapSegments fun _ => not_mem_normalizeSegment, Function.comp_def,
      normalizeSegment_idempotent]

example : normalizePath "//users/:id/v:n/".toList = "//users/{id}/v:n/".toList := by decide

end WalaStack.Proof.Http
