import Mathlib.Data.List.Basic

/-!
# A stream of frames

A stream is `Framed` with a part if it is a sequence of whole frames and then
the part. Each frame ends in a delimiter that occurs nowhere else in it, so
what comes behind whole frames is itself made of whole frames only if it is
empty or ends in the delimiter.
-/

namespace WalaStack.Frames

variable {α : Type*} {frame : List α → Prop} {stream part xs : List α} {sep : α}

/-- Whole frames, followed by `part`. -/
def Framed (frame : List α → Prop) (stream part : List α) : Prop :=
  ∃ frames : List (List α), (∀ m ∈ frames, frame m) ∧ stream = frames.flatten ++ part

namespace Framed

theorem nil : Framed frame [] [] := ⟨[], nofun, rfl⟩

theorem imp {frame' : List α → Prop} (h : Framed frame stream part) (hf : ∀ m, frame m → frame' m) :
    Framed frame' stream part := by
  obtain ⟨frames, hm, hs⟩ := h
  exact ⟨frames, fun m h => hf m (hm m h), hs⟩

/-- The part grows. -/
theorem append (h : Framed frame stream part) (xs : List α) : Framed frame (stream ++ xs) (part ++ xs) := by
  obtain ⟨frames, hf, rfl⟩ := h
  exact ⟨frames, hf, List.append_assoc ..⟩

/-- The part is a frame. -/
theorem whole (h : Framed frame stream part) (hp : frame part) : Framed frame stream [] := by
  obtain ⟨frames, hf, rfl⟩ := h
  refine ⟨frames ++ [part], fun m hm => ?_, by simp⟩
  rcases List.mem_append.mp hm with hm | hm
  · exact hf m hm
  · rw [List.mem_singleton.mp hm]
    exact hp

/-- Whole frames end in the delimiter. -/
theorem getLast?_eq (hsep : ∀ m, frame m → m.getLast? = some sep) (h : Framed frame stream []) (hne : stream ≠ []) :
    stream.getLast? = some sep := by
  obtain ⟨frames, hf, rfl⟩ := h
  rw [List.append_nil] at hne ⊢
  rcases List.eq_nil_or_concat frames with rfl | ⟨init, last, rfl⟩
  · exact absurd rfl hne
  · have hlast := hsep last (hf last (by simp))
    rw [List.concat_eq_append, List.flatten_concat, List.getLast?_append, hlast, Option.some_or]

/-- A part without the delimiter is whole frames only if it is empty. -/
theorem nil_iff (hsep : ∀ m, frame m → m.getLast? = some sep) (h : Framed frame stream part) (hp : sep ∉ part) :
    Framed frame stream [] ↔ part = [] := by
  constructor
  · intro hw
    obtain ⟨frames, -, rfl⟩ := h
    by_contra hne
    have hlast := hw.getLast?_eq hsep (by simp [hne])
    rw [List.getLast?_append_of_ne_nil _ hne] at hlast
    exact hp (List.mem_of_getLast? hlast)
  · rintro rfl
    exact h

end Framed

end WalaStack.Frames
