import WalaStack.Framework.Frames

/-!
# Whole lines of a stream

A reader of lines takes what a separator ends; what stands behind the last
separator is not yet a line. A stream that only grows keeps its lines
(`prefix_append`), and one that is written line by line has the lines that were
written (`lines_unlines`); so has a stream of frames that are lines
(`exists_unlines`).
-/

namespace WalaStack.Lines

open WalaStack.Frames

variable {α : Type*} {sep : α} {part line : List α}

/-- Lines, each with its separator. -/
def unlines (sep : α) (ls : List (List α)) : List α := ls.flatMap fun line => line ++ [sep]

theorem unlines_append (ls ls' : List (List α)) : unlines sep (ls ++ ls') = unlines sep ls ++ unlines sep ls' :=
  List.flatMap_append

theorem unlines_singleton (line : List α) : unlines sep [line] = line ++ [sep] := List.append_nil _

/-- Frames that are lines, and the part of one. -/
theorem exists_unlines {frame : List α → Prop} {stream : List α}
    (hframe : ∀ m, frame m → ∃ line, sep ∉ line ∧ m = line ++ [sep]) (h : Framed frame stream part) :
    ∃ ls, (∀ line ∈ ls, sep ∉ line ∧ frame (line ++ [sep])) ∧ stream = unlines sep ls ++ part := by
  obtain ⟨frames, hf, rfl⟩ := h
  induction frames with
  | nil => exact ⟨[], nofun, rfl⟩
  | cons m frames ih =>
    obtain ⟨ls, hls, hs⟩ := ih fun m' hm' => hf m' (List.mem_cons_of_mem _ hm')
    obtain ⟨line, hline, rfl⟩ := hframe m (hf m List.mem_cons_self)
    refine ⟨line :: ls, fun l hl => ?_, ?_⟩
    · rcases List.mem_cons.mp hl with rfl | hl
      · exact ⟨hline, hf _ List.mem_cons_self⟩
      · exact hls l hl
    · rw [List.flatten_cons, List.append_assoc, hs, unlines, unlines, List.flatMap_cons, List.append_assoc (line ++ [sep])]

variable [DecidableEq α]

/-- The lines of a stream, without their separators. -/
def lines (sep : α) (stream : List α) : List (List α) := (stream.splitOn sep).dropLast

theorem lines_append_cons (xs ys : List α) : lines sep (xs ++ sep :: ys) = xs.splitOn sep ++ lines sep ys := by
  rw [lines, List.splitOn_append_cons_self, List.dropLast_append_of_ne_nil (List.splitOn_ne_nil sep ys)]
  rfl

theorem splitOn_of_not_mem (h : sep ∉ part) : part.splitOn sep = [part] := by
  induction part with
  | nil => rfl
  | cons x xs ih =>
    rw [List.mem_cons, not_or] at h
    rw [List.splitOn_cons_eq_if_modifyHead, if_neg (by simpa using Ne.symm h.1), ih h.2]
    rfl

/-- What no separator ends is no line. -/
theorem lines_of_not_mem (h : sep ∉ part) : lines sep part = [] := by
  rw [lines, splitOn_of_not_mem h]
  rfl

theorem lines_cons (h : sep ∉ line) (rest : List α) : lines sep (line ++ sep :: rest) = line :: lines sep rest := by
  rw [lines_append_cons, splitOn_of_not_mem h]
  rfl

/-- The part of a line leaves the lines before it as they are. -/
theorem lines_append_part (h : sep ∉ part) (xs : List α) : lines sep (xs ++ part) = lines sep xs := by
  induction hn : xs.length using Nat.strongRecOn generalizing xs with
  | _ n ih =>
    by_cases hm : sep ∈ xs
    · obtain ⟨a, b, rfl⟩ := List.append_of_mem hm
      have hb : lines sep (b ++ part) = lines sep b := by
        refine ih b.length ?_ b rfl
        rw [← hn, List.length_append, List.length_cons]
        omega
      rw [List.append_assoc, List.cons_append, lines_append_cons, lines_append_cons, hb]
    · rw [lines_of_not_mem hm, lines_of_not_mem]
      exact fun hmem => (List.mem_append.mp hmem).elim hm h

theorem prefix_append (xs ys : List α) : lines sep xs <+: lines sep (xs ++ ys) := by
  induction ys generalizing xs with
  | nil => exact ⟨[], by rw [List.append_nil, List.append_nil]⟩
  | cons y ys ih =>
    have hy : lines sep xs <+: lines sep (xs ++ [y]) := by
      by_cases h : y = sep
      · subst h
        rw [lines_append_cons, lines_of_not_mem List.not_mem_nil, List.append_nil]
        exact List.dropLast_prefix _
      · have hpart : sep ∉ [y] := by simpa using Ne.symm h
        exact ⟨[], by rw [List.append_nil, lines_append_part hpart]⟩
    have hrest := ih (xs ++ [y])
    rw [List.append_assoc, List.singleton_append] at hrest
    exact hy.trans hrest

theorem lines_unlines {ls : List (List α)} (hls : ∀ line ∈ ls, sep ∉ line) (h : sep ∉ part) :
    lines sep (unlines sep ls ++ part) = ls := by
  induction ls with
  | nil => exact lines_of_not_mem h
  | cons line ls ih =>
    have hrest := ih fun l hl => hls l (List.mem_cons_of_mem _ hl)
    rw [unlines, List.flatMap_cons, List.append_assoc, List.append_assoc, List.singleton_append,
      lines_cons (hls line List.mem_cons_self)]
    exact congrArg _ hrest

end WalaStack.Lines
