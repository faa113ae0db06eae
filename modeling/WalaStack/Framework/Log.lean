import Mathlib.Data.List.Basic

/-!
# Obligations in a log

A log is a list of entries that grows at its end. An `Obligation` says which
entries open it for a key and which close it; `Pending` are the keys for
which it is open at the end of a log. `pending_concat` is its step rule, from
which the properties of the form "each of these is followed by one of those"
and "none of these before one of those" are proved along a run.
-/

namespace WalaStack.Log

variable {ε κ : Type*}

/-- The places of an entry in a log with one more entry. -/
theorem split_concat {h pre post : List ε} {e x : ε} (he : h ++ [e] = pre ++ x :: post) :
    (h = pre ∧ e = x ∧ post = []) ∨ ∃ post', h = pre ++ x :: post' ∧ post = post' ++ [e] := by
  rcases List.eq_nil_or_concat post with rfl | ⟨post', y, rfl⟩
  · obtain ⟨h₁, h₂⟩ := List.append_inj' he rfl
    exact .inl ⟨h₁, List.singleton_inj.mp h₂, rfl⟩
  · rw [List.concat_eq_append, ← List.cons_append, ← List.append_assoc] at he
    obtain ⟨h₁, h₂⟩ := List.append_inj' he rfl
    have hy : e = y := List.singleton_inj.mp h₂
    exact .inr ⟨post', h₁, by rw [List.concat_eq_append, hy]⟩

/-- What holds before each place of `x` in a log, when the log grows. -/
theorem forall_before_concat {h : List ε} {e x : ε} {P : List ε → Prop} :
    (∀ pre post, h ++ [e] = pre ++ x :: post → P pre) ↔
      (∀ pre post, h = pre ++ x :: post → P pre) ∧ (e = x → P h) := by
  constructor
  · intro hP
    refine ⟨fun pre post he => hP pre (post ++ [e]) ?_, fun hx => hP h [] (by rw [hx])⟩
    rw [he, List.append_assoc, List.cons_append]
  · intro hP pre post he
    rcases split_concat he with ⟨rfl, hx, -⟩ | ⟨post', hh, -⟩
    · exact hP.2 hx
    · exact hP.1 pre post' hh

/-- What opens a key, and what closes it. -/
structure Obligation (ε κ : Type*) where
  opens : ε → κ → Prop
  closes : ε → κ → Prop

namespace Obligation

variable {o : Obligation ε κ} {h : List ε} {e : ε} {k : κ}

/-- The last entry that opened `k` has not been followed by one that closes it. -/
def Pending (o : Obligation ε κ) (h : List ε) (k : κ) : Prop :=
  ∃ pre x post, h = pre ++ x :: post ∧ o.opens x k ∧ ∀ y ∈ post, ¬ o.closes y k

theorem not_pending_nil : ¬ o.Pending [] k := by
  rintro ⟨pre, x, post, he, -, -⟩
  have hlen := congrArg List.length he
  simp at hlen

/-- An entry opens the key, or leaves it open if it does not close it. -/
theorem pending_concat : o.Pending (h ++ [e]) k ↔ o.opens e k ∨ (o.Pending h k ∧ ¬ o.closes e k) := by
  constructor
  · rintro ⟨pre, x, post, he, hx, hpost⟩
    rcases split_concat he with ⟨-, rfl, -⟩ | ⟨post', hh, rfl⟩
    · exact .inl hx
    · exact .inr ⟨⟨pre, x, post', hh, hx, fun y hy => hpost y (List.mem_append_left _ hy)⟩,
        hpost e (List.mem_append_right _ List.mem_cons_self)⟩
  · rintro (ho | ⟨⟨pre, x, post, rfl, hx, hpost⟩, hc⟩)
    · exact ⟨h, e, [], rfl, ho, nofun⟩
    · refine ⟨pre, x, post ++ [e], by rw [List.append_assoc, List.cons_append], hx, fun y hy => ?_⟩
      rcases List.mem_append.mp hy with hy | hy
      · exact hpost y hy
      · rw [List.mem_singleton.mp hy]
        exact hc

/-- An entry that does not open the key leaves at most what was open. -/
theorem Pending.of_concat (hp : o.Pending (h ++ [e]) k) (ho : ¬ o.opens e k) :
    o.Pending h k ∧ ¬ o.closes e k :=
  (pending_concat.mp hp).resolve_left ho

end Obligation

end WalaStack.Log
