import WalaStack.Impl.Runtime.Scheduler

/-!
# What one step of a schedule does

`ScheduleSteps` lists the steps of `run_schedule` and `run_attempts`, one
constructor for each way through the code between two awaits, and those of who
cancels the schedule. `scheduleSteps_of_step` is the inversion of
`Schedule.step`; the invariants of a schedule are proved from it.
-/

namespace WalaStack.Proof.Scheduler

open WalaStack.Rust WalaStack.Impl.Runtime

variable {cfg : Scheduled} {clock : Clock} {s s' : Schedule} {a : ScheduleAction}

/-! ## Fields -/

@[simp] theorem publish_phase (s : Schedule) (e : TaskEvent) : (s.publish cfg e).phase = s.phase := by
  unfold Schedule.publish
  split <;> rfl

@[simp] theorem publish_cancelled (s : Schedule) (e : TaskEvent) : (s.publish cfg e).cancelled = s.cancelled := by
  unfold Schedule.publish
  split <;> rfl

@[simp] theorem publish_unseen (s : Schedule) (e : TaskEvent) : (s.publish cfg e).unseen = s.unseen := by
  unfold Schedule.publish
  split <;> rfl

@[simp] theorem publish_triggerCount (s : Schedule) (e : TaskEvent) :
    (s.publish cfg e).triggerCount = s.triggerCount := by
  unfold Schedule.publish
  split <;> rfl

@[simp] theorem publish_lastFire (s : Schedule) (e : TaskEvent) : (s.publish cfg e).lastFire = s.lastFire := by
  unfold Schedule.publish
  split <;> rfl

/-! ## Steps -/

/-- The steps of a schedule, by the way through the code. -/
inductive ScheduleSteps (cfg : Scheduled) (clock : Clock) (s : Schedule) : ScheduleAction → Schedule → Prop
  | stop {wake : Nat} : s.phase = .waiting wake → wake ≤ clock.now → s.cancelled = true →
    ScheduleSteps cfg clock s .slept (s.goto .returned)
  | fire {wake : Nat} : s.phase = .waiting wake → wake ≤ clock.now → s.cancelled = false →
    ScheduleSteps cfg clock s .slept (s.fire cfg clock)
  | retry {attempt firedAt wake : Nat} : s.phase = .backingOff attempt firedAt wake → wake ≤ clock.now →
    ScheduleSteps cfg clock s .slept (s.beginAttempt cfg clock (attempt + 1) firedAt)
  | leaveWait {wake : Nat} : s.phase = .waiting wake → s.unseen = true →
    ScheduleSteps cfg clock s .changed ({ s with unseen := false }.goto .returned)
  | leaveBackoff {attempt firedAt wake : Nat} : s.phase = .backingOff attempt firedAt wake → s.unseen = true →
    ScheduleSteps cfg clock s .changed ({ s with unseen := false }.afterFire cfg clock)
  | returned {attempt firedAt startedAt subsecNanos : Nat} {result : Except String Unit} :
    s.phase = .calling attempt firedAt startedAt →
    ScheduleSteps cfg clock s (.resolved (.returned result) subsecNanos)
      (s.onResult cfg clock attempt firedAt subsecNanos result)
  | timedOut {attempt firedAt startedAt subsecNanos : Nat} {d : Duration} :
    s.phase = .calling attempt firedAt startedAt → cfg.policies.timeout = some d → startedAt + d.nanos ≤ clock.now →
    ScheduleSteps cfg clock s (.resolved .timedOut subsecNanos)
      (s.onResult cfg clock attempt firedAt subsecNanos
        (.error ("task timed out after " ++ toString d.asMillis ++ "ms")))
  | panicked {attempt firedAt startedAt subsecNanos : Nat} : s.phase = .calling attempt firedAt startedAt →
    ScheduleSteps cfg clock s (.resolved .panicked subsecNanos) (s.goto .returned)
  | cancel : ScheduleSteps cfg clock s .cancel { s with cancelled := true, unseen := true }
  | shutdown : ScheduleSteps cfg clock s .shutdown { s with cancelled := true, unseen := true, phase := .returned }

theorem scheduleSteps_of_step (h : s.step cfg clock a = some s') : ScheduleSteps cfg clock s a s' := by
  cases a with
  | slept =>
    simp only [Schedule.step] at h
    split at h
    · rename_i wake hp
      split at h
      · rename_i hle
        cases h
        cases hc : s.cancelled with
        | false => exact .fire hp hle hc
        | true =>
          rw [Schedule.fire, if_pos hc]
          exact .stop hp hle hc
      · cases h
    · rename_i attempt firedAt wake hp
      split at h
      · rename_i hle
        cases h
        exact .retry hp hle
      · cases h
    · cases h
  | changed =>
    simp only [Schedule.step] at h
    split at h
    · rename_i hu
      split at h
      · rename_i hp
        cases h
        exact .leaveWait hp hu
      · rename_i hp
        cases h
        exact .leaveBackoff hp hu
      · cases h
    · cases h
  | resolved outcome subsecNanos =>
    simp only [Schedule.step] at h
    split at h
    · rename_i hp
      split at h
      · cases h
        exact .returned hp
      · split at h
        · rename_i hd
          split at h
          · rename_i hle
            cases h
            exact .timedOut hp hd hle
          · cases h
        · cases h
      · cases h
        exact .panicked hp
    · cases h
  | cancel =>
    cases h
    exact .cancel
  | shutdown =>
    cases h
    exact .shutdown

end WalaStack.Proof.Scheduler
