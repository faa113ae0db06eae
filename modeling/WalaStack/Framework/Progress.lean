import Mathlib.Tactic.TypeStar

/-!
# Rounds

A state that goes through rounds, each with an input of its own. What every
round either meets or comes closer to, by a measure, is met in some round.
-/

namespace WalaStack.Progress

variable {σ ι : Type*} {next : ι → σ → σ} {I : σ → Prop} {ok : ι → Prop}

/-- The state before round `n`. -/
def before (next : ι → σ → σ) : (Nat → ι) → Nat → σ → σ
  | _, 0, s => s
  | input, n + 1, s => before next (fun k => input (k + 1)) n (next (input 0) s)

theorem before_invariant (hI : ∀ {i s}, I s → I (next i s)) {s : σ} (hs : I s) (input : Nat → ι) (n : Nat) :
    I (before next input n s) := by
  induction n generalizing s input with
  | zero => exact hs
  | succ n ih => exact ih (hI hs) _

theorem exists_met {meets : ι → σ → Prop} {measure : σ → Nat}
    (hround : ∀ {i s}, I s → ok i → meets i s ∨ I (next i s) ∧ measure (next i s) < measure s) {s : σ} (hs : I s)
    {input : Nat → ι} (hok : ∀ n, ok (input n)) : ∃ n, meets (input n) (before next input n s) := by
  generalize hm : measure s = m
  induction m using Nat.strongRecOn generalizing s input with
  | _ m ih =>
    rcases hround hs (hok 0) with hmeets | ⟨hnext, hlt⟩
    · exact ⟨0, hmeets⟩
    · obtain ⟨n, hn⟩ := ih _ (hm ▸ hlt) hnext (fun k => hok (k + 1)) rfl
      exact ⟨n + 1, hn⟩

end WalaStack.Progress
