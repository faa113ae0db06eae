import Mathlib.Data.List.Basic

/-!
# Segments between separators

A list is cut at a separator by `List.splitOn`, and put together again by
`List.intercalate`. Two lists made of segments without the separator are equal
only if their segments are.

`mapSegments` rewrites the segments one by one. A rewriting that brings in no
separator keeps the number of segments, and can be followed by another.
-/

namespace WalaStack.Segments

variable {α β : Type*} {sep : α}

/-- The segments, each but the first with a separator before it. -/
theorem intercalate_cons (a : List α) (l : List (List α)) :
    [sep].intercalate (a :: l) = a ++ l.flatMap fun b => sep :: b := by
  induction l generalizing a with
  | nil => simp
  | cons b l ih =>
    rw [List.intercalate_cons_cons, ih, List.flatMap_cons]
    simp

theorem cons_intercalate (x : α) (a : List α) (l : List (List α)) :
    x :: [sep].intercalate (a :: l) = [sep].intercalate ((x :: a) :: l) := by
  rw [intercalate_cons, intercalate_cons, List.cons_append]

theorem intercalate_append {l l' : List (List α)} (hne : l ≠ []) (hne' : l' ≠ []) :
    [sep].intercalate (l ++ l') = [sep].intercalate l ++ sep :: [sep].intercalate l' := by
  obtain ⟨a, l, rfl⟩ := List.exists_cons_of_ne_nil hne
  obtain ⟨b, l', rfl⟩ := List.exists_cons_of_ne_nil hne'
  simp [intercalate_cons]

theorem infix_intercalate {a : List α} {l : List (List α)} (h : a ∈ l) : a <:+: [sep].intercalate l := by
  obtain ⟨before, after, rfl⟩ := List.append_of_mem h
  have hstart : a <+: [sep].intercalate (a :: after) := by
    rw [intercalate_cons]
    exact List.prefix_append _ _
  by_cases hb : before = []
  · rw [hb]
    exact hstart.isInfix
  · rw [intercalate_append hb (List.cons_ne_nil a after)]
    exact hstart.isInfix.trans (List.suffix_append_of_suffix (List.suffix_cons sep _)).isInfix

variable [DecidableEq α]

theorem not_mem_of_mem_splitOn {xs l : List α} (h : l ∈ xs.splitOn sep) : sep ∉ l := by
  induction xs generalizing l with
  | nil =>
    rw [List.splitOn_nil, List.mem_singleton] at h
    subst h
    exact List.not_mem_nil
  | cons x xs ih =>
    rw [List.splitOn_cons_eq_if_modifyHead] at h
    obtain ⟨a, rest, hs⟩ := List.exists_cons_of_ne_nil (List.splitOn_ne_nil sep xs)
    rw [hs] at h ih
    split at h
    · rcases List.mem_cons.mp h with rfl | h
      · exact List.not_mem_nil
      · exact ih h
    · rename_i hx
      rcases List.mem_cons.mp h with rfl | h
      · have ha := ih List.mem_cons_self
        simp only [beq_iff_eq] at hx
        simp [ha, Ne.symm hx]
      · exact ih (List.mem_cons_of_mem _ h)

theorem intercalate_inj {l l' : List (List α)} (hne : l ≠ []) (hne' : l' ≠ []) (h : ∀ a ∈ l, sep ∉ a)
    (h' : ∀ a ∈ l', sep ∉ a) : [sep].intercalate l = [sep].intercalate l' ↔ l = l' := by
  constructor
  · intro he
    have hs := congrArg (List.splitOn sep) he
    rwa [List.splitOn_intercalate sep h hne, List.splitOn_intercalate sep h' hne'] at hs
  · intro he
    rw [he]

/-! ## Rewriting the segments -/

/-- The list with each of its segments rewritten. -/
def mapSegments (sep : α) (f : List α → List α) (xs : List α) : List α := [sep].intercalate ((xs.splitOn sep).map f)

theorem map_splitOn_ne_nil (sep : α) (f : List α → List α) (xs : List α) : (xs.splitOn sep).map f ≠ [] := by simp

/-- On either side of a separator the segments are rewritten by themselves. -/
theorem mapSegments_append_cons (f : List α → List α) (xs ys : List α) :
    mapSegments sep f (xs ++ sep :: ys) = mapSegments sep f xs ++ sep :: mapSegments sep f ys := by
  rw [mapSegments, List.splitOn_append_cons_self, List.map_append,
    intercalate_append (map_splitOn_ne_nil sep f xs) (map_splitOn_ne_nil sep f ys)]
  rfl

/-- There is one segment more than there are separators. -/
theorem length_splitOn (sep : α) (xs : List α) : (xs.splitOn sep).length = xs.count sep + 1 := by
  induction xs with
  | nil => rfl
  | cons x xs ih =>
    rw [List.splitOn_cons_eq_if_modifyHead, List.count_cons]
    split
    · rw [List.length_cons, ih]
    · rw [List.length_modifyHead, ih, Nat.add_zero]

section

/- Rewritings that bring in no separator. -/
variable {f g : List α → List α} (hf : ∀ a, sep ∉ a → sep ∉ f a)
include hf

theorem not_mem_of_mem_map {b : List α} {xs : List α} (h : b ∈ (xs.splitOn sep).map f) : sep ∉ b := by
  obtain ⟨a, ha, rfl⟩ := List.mem_map.mp h
  exact hf a (not_mem_of_mem_splitOn ha)

theorem splitOn_mapSegments (xs : List α) : (mapSegments sep f xs).splitOn sep = (xs.splitOn sep).map f :=
  List.splitOn_intercalate sep (fun _ hb => not_mem_of_mem_map hf hb) (map_splitOn_ne_nil sep f xs)

theorem count_mapSegments (xs : List α) : (mapSegments sep f xs).count sep = xs.count sep := by
  have hlength : ((mapSegments sep f xs).splitOn sep).length = (xs.splitOn sep).length := by
    rw [splitOn_mapSegments hf, List.length_map]
  rw [length_splitOn, length_splitOn] at hlength
  omega

theorem mapSegments_mapSegments (xs : List α) :
    mapSegments sep g (mapSegments sep f xs) = mapSegments sep (g ∘ f) xs := by
  rw [mapSegments, splitOn_mapSegments hf, List.map_map]
  rfl

/-- Lists that one rewriting makes equal are made equal by another, if segments
are. -/
theorem mapSegments_eq_of_eq {xs ys : List α} (h : mapSegments sep f xs = mapSegments sep f ys)
    (hfg : ∀ a ∈ xs.splitOn sep, ∀ b ∈ ys.splitOn sep, f a = f b → g a = g b) :
    mapSegments sep g xs = mapSegments sep g ys := by
  have hs : (xs.splitOn sep).map f = (ys.splitOn sep).map f := by
    rw [← splitOn_mapSegments hf, h, splitOn_mapSegments hf]
  have hg : (xs.splitOn sep).map g = (ys.splitOn sep).map g := by
    have hlength : (xs.splitOn sep).length = (ys.splitOn sep).length := by simpa using congrArg List.length hs
    refine List.ext_getElem (by simpa using hlength) fun i hi hi' => ?_
    rw [List.length_map] at hi hi'
    have hsi : ((xs.splitOn sep).map f)[i]? = ((ys.splitOn sep).map f)[i]? := by rw [hs]
    rw [List.getElem?_map, List.getElem?_map, List.getElem?_eq_getElem hi, List.getElem?_eq_getElem hi'] at hsi
    rw [List.getElem_map, List.getElem_map]
    exact hfg _ (List.getElem_mem hi) _ (List.getElem_mem hi') (Option.some.inj hsi)
  rw [mapSegments, mapSegments, hg]

/-- Two rewritings agree on a list exactly if they agree on each of its
segments. -/
theorem mapSegments_inj (hg : ∀ a, sep ∉ a → sep ∉ g a) (xs : List α) :
    mapSegments sep f xs = mapSegments sep g xs ↔ ∀ a ∈ xs.splitOn sep, f a = g a := by
  rw [mapSegments, mapSegments, intercalate_inj (map_splitOn_ne_nil sep f xs) (map_splitOn_ne_nil sep g xs)
    (fun _ hb => not_mem_of_mem_map hf hb) (fun _ hb => not_mem_of_mem_map hg hb), List.map_inj_left]

end

end WalaStack.Segments
