import Mathlib.Data.List.Perm.Basic
import WalaStack.Spec.Drain

/-!
# When a drain keeps its promise

The loop gives each watcher the whole deadline from the end of the last one's
on, and aborts none. Watchers that all exit by the deadline are all waited for
(`drainLoop_of_exits`); any other is left behind, or waited for too long.
-/

namespace WalaStack.Proof.Supervision

open WalaStack.Rust WalaStack.Impl.Runtime WalaStack.Spec.Supervision

variable {deadline : Duration} {exits order : List (Option Nat)} {graceful now : Nat}

/-! ## The loop -/

theorem drainLoop_cons_graceful (watcher : WatcherTask) (watchers : List WatcherTask) :
    (drainLoop deadline graceful now (watcher :: watchers)).graceful =
      (drainLoop deadline (if (timeout deadline now watcher).1 then graceful + 1 else graceful)
        (timeout deadline now watcher).2 watchers).graceful := rfl

theorem drainLoop_cons_returnedAt (watcher : WatcherTask) (watchers : List WatcherTask) :
    (drainLoop deadline graceful now (watcher :: watchers)).returnedAt =
      (drainLoop deadline (if (timeout deadline now watcher).1 then graceful + 1 else graceful)
        (timeout deadline now watcher).2 watchers).returnedAt := rfl

theorem drainLoop_watchers (watchers : List WatcherTask) :
    (drainLoop deadline graceful now watchers).watchers = watchers := by
  induction watchers generalizing graceful now with
  | nil => rfl
  | cons watcher watchers ih =>
    simp only [drainLoop]
    rw [ih]

/-- A watcher that exits by the deadline is waited for, and no longer than up
to it. -/
theorem timeout_of_exits {t : Nat} (ht : t ≤ deadline.nanos) :
    timeout deadline now ⟨some t, false⟩ = (true, max now t) :=
  if_pos (Nat.le_add_left_of_le ht)

theorem timeout_le (watcher : WatcherTask) : (timeout deadline now watcher).2 ≤ now + deadline.nanos := by
  unfold timeout
  split
  · split
    · rename_i t _ ht
      exact Nat.max_le.mpr ⟨Nat.le_add_right _ _, ht⟩
    · exact Nat.le_refl _
  · exact Nat.le_refl _

/-! ## Any watchers -/

/-- A drain takes at most one deadline for each watcher, -/
theorem drainLoop_returnedAt_le (watchers : List WatcherTask) :
    (drainLoop deadline graceful now watchers).returnedAt ≤ now + watchers.length * deadline.nanos := by
  induction watchers generalizing graceful now with
  | nil => exact Nat.le_add_right _ _
  | cons watcher watchers ih =>
    rw [drainLoop_cons_returnedAt, List.length_cons, Nat.succ_mul]
    have hle : (timeout deadline now watcher).2 ≤ now + deadline.nanos := timeout_le watcher
    refine Nat.le_trans (ih ..) ?_
    omega

/-- and so many if none exits. -/
theorem drain_never (deadline : Duration) (n : Nat) :
    (drain deadline (watchersOf (List.replicate n none))).returnedAt = n * deadline.nanos := by
  have hloop : ∀ n graceful now, (drainLoop deadline graceful now (watchersOf (List.replicate n none))).returnedAt =
      now + n * deadline.nanos := by
    intro n
    induction n with
    | zero => exact fun graceful now => by simp [watchersOf, drainLoop]
    | succ n ih =>
      intro graceful now
      rw [List.replicate_succ, watchersOf, List.map_cons, drainLoop_cons_returnedAt]
      refine (ih _ _).trans ?_
      rw [Nat.succ_mul]
      show now + deadline.nanos + n * deadline.nanos = _
      omega
  rw [drain, hloop, Nat.zero_add]

/-- It counts every watcher that exits by the deadline, and perhaps others. -/
theorem le_drainLoop_graceful (order : List (Option Nat)) :
    graceful + order.countP (fun exit => ExitsBy deadline exit) ≤
      (drainLoop deadline graceful now (watchersOf order)).graceful := by
  induction order generalizing graceful now with
  | nil => exact Nat.le_refl _
  | cons exit order ih =>
    rw [watchersOf, List.map_cons, drainLoop_cons_graceful]
    refine Nat.le_trans ?_ (ih ..)
    by_cases he : ExitsBy deadline exit
    · have hok : (timeout deadline now ⟨exit, false⟩).1 = true := by
        obtain ⟨t, rfl, ht⟩ := he
        rw [timeout_of_exits ht]
      rw [List.countP_cons, if_pos hok, if_pos (decide_eq_true he)]
      omega
    · rw [List.countP_cons, if_neg (by simpa using he)]
      split <;> omega

/-! ## Watchers that exit by the deadline -/

theorem drainLoop_of_exits (graceful now : Nat) (h : ∀ exit ∈ order, ExitsBy deadline exit) :
    (drainLoop deadline graceful now (watchersOf order)).graceful = graceful + order.length ∧
      now ≤ (drainLoop deadline graceful now (watchersOf order)).returnedAt ∧
      (drainLoop deadline graceful now (watchersOf order)).returnedAt ≤ max now deadline.nanos ∧
      ∀ t, some t ∈ order → t ≤ (drainLoop deadline graceful now (watchersOf order)).returnedAt := by
  induction order generalizing graceful now with
  | nil => exact ⟨rfl, Nat.le_refl _, Nat.le_max_left _ _, fun t ht => absurd ht List.not_mem_nil⟩
  | cons exit order ih =>
    obtain ⟨t, rfl, ht⟩ := h exit List.mem_cons_self
    obtain ⟨hcount, hle, hmax, hmem⟩ := ih (graceful + 1) (max now t) fun e he => h e (List.mem_cons_of_mem _ he)
    rw [watchersOf, List.map_cons, drainLoop_cons_graceful, drainLoop_cons_returnedAt, timeout_of_exits ht, ← watchersOf]
    simp only [if_true]
    refine ⟨by rw [hcount, List.length_cons]; omega, by omega, by omega, fun u hu => ?_⟩
    rcases List.mem_cons.mp hu with hu | hu
    · cases hu
      omega
    · exact hmem u hu

theorem drainMeets_of_exits (hperm : order.Perm exits) (h : ∀ exit ∈ exits, ExitsBy deadline exit) :
    DrainMeets deadline exits (drain deadline (watchersOf order)) := by
  have ho : ∀ exit ∈ order, ExitsBy deadline exit := fun exit he => h exit (hperm.mem_iff.mp he)
  obtain ⟨hcount, -, hmax, hmem⟩ := drainLoop_of_exits 0 0 ho
  refine ⟨?_, fun watcher hw => .inr ?_, ?_⟩
  · show (drainLoop deadline 0 0 (watchersOf order)).returnedAt ≤ deadline.nanos
    omega
  · rw [drain, drainLoop_watchers] at hw
    obtain ⟨exit, he, rfl⟩ := List.mem_map.mp hw
    obtain ⟨t, rfl, -⟩ := ho exit he
    exact ⟨t, rfl, hmem t he⟩
  · show (drainLoop deadline 0 0 (watchersOf order)).graceful = _
    rw [hcount, Nat.zero_add, hperm.length_eq, eq_comm, List.countP_eq_length]
    intro exit he
    exact decide_eq_true (h exit he)

/-- A drain in any order keeps its promise exactly if every watcher exits by
the deadline. -/
theorem drain_meets_iff (deadline : Duration) (exits : List (Option Nat)) :
    (∀ order, order.Perm exits → DrainMeets deadline exits (drain deadline (watchersOf order))) ↔
      ∀ exit ∈ exits, ExitsBy deadline exit := by
  constructor
  · intro hmeets exit he
    have hm := hmeets exits (.refl _)
    have hw : (⟨exit, false⟩ : WatcherTask) ∈ (drain deadline (watchersOf exits)).watchers := by
      rw [drain, drainLoop_watchers]
      exact List.mem_map.mpr ⟨exit, he, rfl⟩
    rcases hm.settled _ hw with haborted | ⟨t, hexit, ht⟩
    · cases haborted
    · exact ⟨t, hexit, Nat.le_trans ht hm.returned⟩
  · intro h order hperm
    exact drainMeets_of_exits hperm h

/-! ## Two watchers -/

/-- Two watchers that never exit: the drain takes two deadlines, and neither is
aborted. -/
theorem drain_twice :
    ¬ ∀ (deadline : Duration) (exits order : List (Option Nat)), order.Perm exits →
      DrainMeets deadline exits (drain deadline (watchersOf order)) := by
  intro h
  have hmeets := h (.fromSecs 1) [none, none] [none, none] (.refl _)
  exact absurd hmeets.returned (by decide)

end WalaStack.Proof.Supervision
