import Mathlib.Algebra.GroupWithZero.Nat
import WalaStack.Framework.Transition

/-!
# Parties that advance one at a time

The states of the parties to a system are a list; a step sets one of them.
How many parties are in a state then changes by what the one party leaves and
what it enters.
-/

namespace WalaStack.Parties

variable {α : Type*} {l : List α} {i : Nat} {a b x : α}

theorem countP_set_add (h : l[i]? = some a) (b : α) (p : α → Bool) :
    (l.set i b).countP p + (if p a then 1 else 0) = l.countP p + (if p b then 1 else 0) := by
  obtain ⟨hi, rfl⟩ := List.getElem?_eq_some_iff.mp h
  have hle : (if p l[i] then 1 else 0) ≤ l.countP p := by
    split
    · rename_i hp
      exact List.countP_pos_iff.mpr ⟨_, List.getElem_mem hi, hp⟩
    · exact Nat.zero_le _
  rw [List.countP_set hi]
  omega

theorem sum_map_set_add (h : l[i]? = some a) (b : α) (f : α → Nat) :
    ((l.set i b).map f).sum + f a = (l.map f).sum + f b := by
  induction l generalizing i with
  | nil => cases h
  | cons x l ih =>
    cases i with
    | zero =>
      obtain rfl := Option.some.inj h
      simp only [List.set_cons_zero, List.map_cons, List.sum_cons]
      omega
    | succ i =>
      have hsum := ih h
      simp only [List.set_cons_succ, List.map_cons, List.sum_cons]
      omega

theorem count_set_add [DecidableEq α] (h : l[i]? = some a) (b x : α) :
    (l.set i b).count x + (if a = x then 1 else 0) = l.count x + (if b = x then 1 else 0) := by
  have hcount := countP_set_add h b (· == x)
  simp only [beq_iff_eq] at hcount
  exact hcount

theorem count_pos_of_getElem? [DecidableEq α] (h : l[i]? = some a) : 0 < l.count a :=
  List.count_pos_iff.mpr (List.mem_of_getElem? h)

/-- A step sets one party, and leaves the others as they are. -/
theorem getElem?_set_cases {j : Nat} (hi : l[i]? = some a) (h : (l.set i b)[j]? = some x) :
    (j = i ∧ x = b) ∨ (j ≠ i ∧ l[j]? = some x) := by
  obtain ⟨hlt, -⟩ := List.getElem?_eq_some_iff.mp hi
  by_cases hj : j = i
  · subst hj
    rw [List.getElem?_set_self hlt] at h
    exact .inl ⟨rfl, (Option.some.inj h).symm⟩
  · rw [List.getElem?_set_ne (Ne.symm hj)] at h
    exact .inr ⟨hj, h⟩

/-- A party that joins is the last one. -/
theorem getElem?_concat_cases (h : (l ++ [b])[i]? = some x) : l[i]? = some x ∨ (i = l.length ∧ x = b) := by
  rcases Nat.lt_trichotomy i l.length with hi | rfl | hi
  · rw [List.getElem?_append_left hi] at h
    exact .inl h
  · rw [List.getElem?_concat_length] at h
    exact .inr ⟨rfl, (Option.some.inj h).symm⟩
  · rw [List.getElem?_eq_none (by simp; omega)] at h
    cases h

end WalaStack.Parties
