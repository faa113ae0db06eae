import WalaStack.Framework.Log
import WalaStack.Spec.Supervision

/-!
# Histories of a watcher

How the notions that the promises of supervision are stated with (`calls`,
`Kept`, `FailedLast`, `events`) change as a history grows. `Owes k` is the
state between a `ServiceFailed` that announces a restart after attempt `k`
and the call that makes it.
-/

namespace WalaStack.Spec.Supervision

open WalaStack.Rust WalaStack.Impl.Runtime

variable {h : List Entry} {e : Entry} {k : Nat}

/-! ## Calls -/

@[simp] theorem calls_nil : calls [] = 0 := rfl

@[simp] theorem calls_append (h h' : List Entry) : calls (h ++ h') = calls h + calls h' := by
  simp [calls]

@[simp] theorem calls_called (k t : Nat) (h : List Entry) : calls (.called k t :: h) = calls h + 1 := by
  simp [calls]

@[simp] theorem calls_resolved (k : Nat) (r : Except String Unit) (h : List Entry) :
    calls (.resolved k r :: h) = calls h := by simp [calls]

@[simp] theorem calls_exited (k t : Nat) (r : JoinResult) (h : List Entry) :
    calls (.exited k r t :: h) = calls h := by simp [calls]

@[simp] theorem calls_aborted (k t : Nat) (h : List Entry) : calls (.aborted k t :: h) = calls h := by
  simp [calls]

@[simp] theorem calls_published (e : LifecycleEvent) (h : List Entry) :
    calls (.published e :: h) = calls h := by simp [calls]

/-! ## Outcomes and events -/

@[simp] theorem failures_append (h h' : List Entry) : failures (h ++ h') = failures h ++ failures h' :=
  List.filterMap_append

@[simp] theorem failures_nil : failures [] = [] := rfl

@[simp] theorem failures_called (k t : Nat) (h : List Entry) : failures (.called k t :: h) = failures h := rfl

@[simp] theorem failures_ok (k : Nat) (h : List Entry) :
    failures (.resolved k (.ok ()) :: h) = false :: failures h := rfl

@[simp] theorem failures_error (k : Nat) (e : String) (h : List Entry) :
    failures (.resolved k (.error e) :: h) = true :: failures h := rfl

@[simp] theorem failures_exited (k t : Nat) (r : JoinResult) (h : List Entry) :
    failures (.exited k r t :: h) = (failure? (.exited k r t)).toList ++ failures h := by
  cases r <;> rfl

@[simp] theorem failures_aborted (k t : Nat) (h : List Entry) :
    failures (.aborted k t :: h) = failures h := rfl

@[simp] theorem failures_published (e : LifecycleEvent) (h : List Entry) :
    failures (.published e :: h) = failures h := rfl

@[simp] theorem events_append (h h' : List Entry) : events (h ++ h') = events h ++ events h' :=
  List.filterMap_append

@[simp] theorem events_nil : events [] = [] := rfl

@[simp] theorem events_published (e : LifecycleEvent) (h : List Entry) :
    events (.published e :: h) = e :: events h := rfl

@[simp] theorem events_called (k t : Nat) (h : List Entry) : events (.called k t :: h) = events h := rfl

@[simp] theorem events_resolved (k : Nat) (r : Except String Unit) (h : List Entry) :
    events (.resolved k r :: h) = events h := rfl

@[simp] theorem events_exited (k t : Nat) (r : JoinResult) (h : List Entry) :
    events (.exited k r t :: h) = events h := rfl

@[simp] theorem events_aborted (k t : Nat) (h : List Entry) : events (.aborted k t :: h) = events h := rfl

/-! ## Promised restarts -/

/-- An entry that announces a restart. -/
def Announces (e : Entry) : Prop := ∃ name err k, e = .published (.failed name err k true)

/-- The restart after attempt `k`, from its announcement to the call. -/
def restartAfter : Log.Obligation Entry Nat where
  opens e k := ∃ name err, e = .published (.failed name err k true)
  closes e k := ∃ t, e = .called (saturatingAdd k 1) t

/-- No restart is pending, but for the one after attempt `k`. -/
def Owes (k : Nat) (h : List Entry) : Prop := ∀ j, restartAfter.Pending h j → j = k

theorem kept_iff : Kept h ↔ ∀ k, ¬ restartAfter.Pending h k := by
  constructor
  · rintro hk k ⟨pre, x, post, he, ⟨name, err, rfl⟩, hpost⟩
    obtain ⟨t, ht⟩ := hk pre post name err k he
    exact hpost _ ht ⟨t, rfl⟩
  · intro hn pre post name err k he
    by_contra hc
    refine hn k ⟨pre, _, post, he, ⟨name, err, rfl⟩, ?_⟩
    rintro y hy ⟨t, rfl⟩
    exact hc ⟨t, hy⟩

theorem not_opens (he : ¬ Announces e) (k : Nat) : ¬ restartAfter.opens e k := fun ⟨name, err, h⟩ =>
  he ⟨name, err, k, h⟩

theorem Kept.owes (hk : Kept h) : Owes k h := fun j hp => absurd hp (kept_iff.mp hk j)

theorem Owes.concat (ho : Owes k h) (he : ¬ Announces e) : Owes k (h ++ [e]) := fun j hp =>
  ho j (hp.of_concat (not_opens he j)).1

theorem Kept.concat (hk : Kept h) (he : ¬ Announces e) : Kept (h ++ [e]) :=
  kept_iff.mpr fun j hp => kept_iff.mp hk j (hp.of_concat (not_opens he j)).1

/-- Announcing the restart after attempt `k`. -/
theorem Kept.announce (hk : Kept h) (name err : String) :
    Owes k (h ++ [.published (.failed name err k true)]) := by
  intro j hp
  rcases Log.Obligation.pending_concat.mp hp with ⟨name', err', he⟩ | ⟨hp, -⟩
  · simp only [Entry.published.injEq, LifecycleEvent.failed.injEq] at he
    exact he.2.2.1.symm
  · exact absurd hp (kept_iff.mp hk j)

/-- The call for the next attempt pays what is owed. -/
theorem Owes.call (ho : Owes k h) (t : Nat) : Kept (h ++ [.called (saturatingAdd k 1) t]) := by
  refine kept_iff.mpr fun j hp => ?_
  obtain ⟨hp, hc⟩ := hp.of_concat (by rintro ⟨_, _, he⟩; cases he)
  exact hc ⟨t, by rw [ho j hp]⟩

theorem not_announces_called (k t : Nat) : ¬ Announces (.called k t) := by rintro ⟨_, _, _, h⟩; cases h

theorem not_announces_resolved (k : Nat) (r : Except String Unit) : ¬ Announces (.resolved k r) := by
  rintro ⟨_, _, _, h⟩; cases h

theorem not_announces_exited (k t : Nat) (r : JoinResult) : ¬ Announces (.exited k r t) := by
  rintro ⟨_, _, _, h⟩; cases h

theorem not_announces_started (name : String) (k : Nat) : ¬ Announces (.published (.started name k)) := by
  rintro ⟨_, _, _, h⟩; cases h

theorem not_announces_stopped (name : String) : ¬ Announces (.published (.stopped name)) := by
  rintro ⟨_, _, _, h⟩; cases h

theorem not_announces_failed (name err : String) (k : Nat) :
    ¬ Announces (.published (.failed name err k false)) := by
  rintro ⟨_, _, _, h⟩; cases h

theorem kept_called (k t : Nat) : Kept [.called k t] := by
  have hn : Kept [] := fun pre post name err j he => by simp at he
  exact hn.concat (not_announces_called k t)

end WalaStack.Spec.Supervision
