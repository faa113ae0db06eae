import WalaStack.Proof.Scheduler.Trace
import WalaStack.Spec.Spacing

/-!
# The calls of a schedule keep their distance

A step begins a call, ends one, or does neither (`CallSteps`). While no call
runs, the wait that comes next does not end before what the law asks for
(`SpacingInv`), so that a call is begun in time.
-/

namespace WalaStack.Proof.Scheduler

open WalaStack.Rust WalaStack.Impl.Runtime WalaStack.Transition WalaStack.Spec.Scheduler

variable {cfg : Scheduled} {clock clock₀ : Clock} {s₀ s s' : Schedule} {a : FiringAction} {w w' : Calling}
variable {cs : List TaskCall}

/-! ## The calls that a step adds -/

/-- What has been added to the history are these calls, and events. -/
def Adds (s s' : Schedule) (cs : List TaskCall) : Prop :=
  ∃ es, s'.history = s.history ++ es ∧ calledIn es = cs

theorem Adds.goto (h : Adds s₀ s cs) (p : SchedulePhase) : Adds s₀ (s.goto p) cs := h

theorem Adds.publish (h : Adds s₀ s cs) (e : TaskEvent) : Adds s₀ (s.publish cfg e) cs := by
  unfold Schedule.publish
  split
  · obtain ⟨es, hes, hcs⟩ := h
    refine ⟨es ++ [.published e], ?_, ?_⟩
    · rw [Schedule.log, hes, List.append_assoc]
    · rw [calledIn, List.filterMap_append]
      simpa [calledIn] using hcs
  · exact h

theorem Adds.called (h : Adds s₀ s cs) (attempt time : Nat) :
    Adds s₀ (s.log (.called attempt time)) (cs ++ [⟨attempt, time, none⟩]) := by
  obtain ⟨es, hes, hcs⟩ := h
  refine ⟨es ++ [.called attempt time], ?_, ?_⟩
  · rw [Schedule.log, hes, List.append_assoc]
  · rw [calledIn, List.filterMap_append, ← calledIn, hcs]
    rfl

theorem Adds.afterFire (h : Adds s₀ s cs) : Adds s₀ (s.afterFire cfg clock) cs := by
  unfold Schedule.afterFire
  split <;> exact h

/-! ## Steps -/

variable {calls : List TaskCall} {c : TaskCall}

/-- The call has ended. -/
def Over (now : Nat) (c : TaskCall) : Prop := ∃ e, c.ended = some e ∧ c.start ≤ e.time ∧ e.time ≤ now

end WalaStack.Proof.Scheduler
