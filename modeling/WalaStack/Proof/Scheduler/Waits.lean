import WalaStack.Proof.Scheduler.Trace
import WalaStack.Spec.Firing

/-!
# The waits of a schedule

A step of a schedule fires, or begins to wait, or leaves its wait as it is
(`WaitSteps`), so that a wait ends its delay after it began (`TimedSteps.waits`).
-/

namespace WalaStack.Proof.Scheduler

open WalaStack.Rust WalaStack.Impl.Runtime WalaStack.Transition WalaStack.Spec.Scheduler

variable {cfg : Scheduled} {clock : Clock} {s s' : Schedule} {a : ScheduleAction} {pace : Pace} {w w' : Timed}

/-! ## Waits -/

/-- `run_attempts` is running. -/
def AtWork (s : Schedule) : Prop :=
  match s.phase with
  | .calling _ _ _ | .backingOff _ _ _ => True
  | .waiting _ | .returned => False

/-- What a step does to the wait of a schedule, and whether it fires. -/
inductive WaitSteps (cfg : Scheduled) (clock : Clock) (s s' : Schedule) : Bool → Prop
  | fires (wake : Nat) : s.phase = .waiting wake → wake ≤ clock.now → AtWork s' → s'.lastFire = some clock.now →
    WaitSteps cfg clock s s' true
  | begins : AtWork s → s'.phase = .waiting (clock.now + (nextDelay clock s.lastFire cfg.trigger).nanos) →
    s'.lastFire = s.lastFire → WaitSteps cfg clock s s' false
  | goesOn : (∀ wake, s'.phase = .waiting wake → s.phase = .waiting wake) → (AtWork s' → AtWork s) →
    s'.lastFire = s.lastFire → WaitSteps cfg clock s s' false

theorem atWork_calling {attempt firedAt startedAt : Nat} (hp : s.phase = .calling attempt firedAt startedAt) :
    AtWork s := by
  rw [AtWork, hp]
  trivial

theorem atWork_backingOff {attempt firedAt wake : Nat} (hp : s.phase = .backingOff attempt firedAt wake) :
    AtWork s := by
  rw [AtWork, hp]
  trivial

/-- `run_schedule` returns. -/
theorem WaitSteps.returns (hp : s'.phase = .returned) (hl : s'.lastFire = s.lastFire) :
    WaitSteps cfg clock s s' false := by
  refine .goesOn (fun wake h => ?_) (fun h => ?_) hl
  · rw [hp] at h
    cases h
  · rw [AtWork, hp] at h
    exact h.elim

theorem waitSteps_afterFire {s₀ : Schedule} (hw : AtWork s₀) (hl : s.lastFire = s₀.lastFire) :
    WaitSteps cfg clock s₀ (s.afterFire cfg clock) false := by
  unfold Schedule.afterFire
  split
  · exact .returns rfl hl
  · exact .begins hw (by rw [← hl]; rfl) hl

theorem waitSteps_beginAttempt {s₀ : Schedule} (attempt firedAt : Nat) (hw : AtWork s₀)
    (hl : s.lastFire = s₀.lastFire) : WaitSteps cfg clock s₀ (s.beginAttempt cfg clock attempt firedAt) false := by
  unfold Schedule.beginAttempt
  split
  · exact waitSteps_afterFire hw hl
  · exact .goesOn (fun wake h => by cases h) (fun _ => hw) hl

theorem waitSteps_onResult (attempt firedAt subsecNanos : Nat) (result : Except String Unit) (hw : AtWork s) :
    WaitSteps cfg clock s (s.onResult cfg clock attempt firedAt subsecNanos result) false := by
  cases result with
  | ok u => exact waitSteps_afterFire hw (publish_lastFire s _)
  | error e =>
    by_cases hlt : attempt < cfg.policies.maxAttempts <;> simp only [Schedule.onResult, hlt, ite_true, ite_false]
    · exact .goesOn (fun wake h => by cases h) (fun _ => hw) (publish_lastFire s _)
    · exact waitSteps_afterFire hw (publish_lastFire s _)

theorem waitSteps_of_step (h : s.step cfg clock a = some s') : WaitSteps cfg clock s s' (starts s a) := by
  cases scheduleSteps_of_step h with
  | stop hp _ hc =>
    rw [show starts s .slept = false by simp [starts, hp, hc]]
    exact .returns rfl rfl
  | @fire wake hp hle hc =>
    rw [show starts s .slept = true by simp [starts, hp, hc]]
    simp only [Schedule.fire, hc, Bool.false_eq_true, ite_false, Schedule.beginAttempt, publish_cancelled]
    exact .fires wake hp hle trivial (publish_lastFire _ _)
  | retry hp =>
    rw [show starts s .slept = false by simp [starts, hp]]
    exact waitSteps_beginAttempt _ _ (atWork_backingOff hp) rfl
  | leaveWait | panicked | shutdown => exact .returns rfl rfl
  | leaveBackoff hp => exact waitSteps_afterFire (atWork_backingOff hp) rfl
  | returned hp | timedOut hp => exact waitSteps_onResult _ _ _ _ (atWork_calling hp)
  | cancel => exact .goesOn (fun _ h => h) id rfl

/-! ## Timed steps -/

/-- A wait ends its delay after it began. -/
def Waits (cfg : Scheduled) (w : Timed) : Prop :=
  ∀ wake, w.schedule.phase = .waiting wake →
    wake = w.since.now + (nextDelay w.since w.schedule.lastFire cfg.trigger).nanos

theorem waits_init (cfg : Scheduled) (clock : Clock) : Waits cfg (.init cfg clock) := by
  intro wake h
  cases h
  rfl

/-- The parts of a timed step. -/
structure TimedSteps (cfg : Scheduled) (pace : Pace) (w : Timed) (clock : Clock) (a : ScheduleAction) (w' : Timed) :
    Prop where
  paced : pace w clock a = true
  steps : WaitSteps cfg clock w.schedule w'.schedule (starts w.schedule a)
  clock_eq : w'.clock = clock
  since_eq : w'.since = if w'.schedule.phase = w.schedule.phase then w.since else clock
  fires_eq : w'.fires =
    if starts w.schedule a then w.fires ++ [⟨w.schedule.lastFire, w.since, clock⟩] else w.fires

theorem timedSteps_of_step (h : w.step cfg pace (clock, a) = some w') : TimedSteps cfg pace w clock a w' := by
  unfold Timed.step at h
  split at h
  · rename_i hp
    obtain ⟨s', hs, rfl⟩ := Option.map_eq_some_iff.mp h
    exact ⟨hp, waitSteps_of_step hs, rfl, rfl, rfl⟩
  · cases h

theorem AtWork.ne_waiting (h : AtWork s) (wake : Nat) : s.phase ≠ .waiting wake := by
  intro hp
  rw [AtWork, hp] at h
  exact h

/-- The phase changes with a fire. -/
theorem TimedSteps.since_of_fire (h : TimedSteps cfg pace w clock a w') (hf : starts w.schedule a = true) :
    w'.since = clock := by
  have hsteps := h.steps
  rw [hf] at hsteps
  cases hsteps with
  | fires wake hp hle hw hl =>
    rw [h.since_eq, if_neg]
    rw [hp]
    exact hw.ne_waiting wake

/-- The wait began between the clocks of the step before and those of this
one. -/
theorem TimedSteps.since_bounds {α : Type*} [Preorder α] (h : TimedSteps cfg pace w clock a w') (read : Clock → α)
    (hsince : read w.since ≤ read w.clock) (hclock : read w.clock ≤ read clock) :
    read w.since ≤ read w'.since ∧ read w'.since ≤ read clock := by
  rw [h.since_eq]
  split
  · exact ⟨le_rfl, hsince.trans hclock⟩
  · exact ⟨hsince.trans hclock, le_rfl⟩

theorem TimedSteps.forall_fires (h : TimedSteps cfg pace w clock a w') {P : Fire → Prop} :
    (∀ f ∈ w'.fires, P f) ↔
      (∀ f ∈ w.fires, P f) ∧ (starts w.schedule a = true → P ⟨w.schedule.lastFire, w.since, clock⟩) := by
  rw [h.fires_eq]
  split
  · rename_i hf
    simp only [List.forall_mem_append, List.forall_mem_singleton, hf, forall_const]
  · rename_i hf
    exact (and_iff_left fun hc => absurd hc hf).symm

theorem TimedSteps.waits (h : TimedSteps cfg pace w clock a w') (hw : Waits cfg w) : Waits cfg w' := by
  intro wake hp
  have hsteps := h.steps
  cases hb : starts w.schedule a <;> rw [hb] at hsteps
  · cases hsteps with
    | begins hwork hp' hl =>
      have hne : w'.schedule.phase ≠ w.schedule.phase := by
        rw [hp']
        exact (hwork.ne_waiting _).symm
      rw [hp'] at hp
      cases hp
      rw [h.since_eq, if_neg hne, hl]
    | goesOn hkeep _ hl =>
      have hold := hkeep wake hp
      rw [h.since_eq, if_pos (hp.trans hold.symm), hl]
      exact hw wake hold
  · cases hsteps with
    | fires _ _ _ hwork _ => exact absurd hp (hwork.ne_waiting wake)

/-- A fire ends the wait before it. -/
theorem TimedSteps.wake_le (h : TimedSteps cfg pace w clock a w') (hf : starts w.schedule a = true) :
    ∃ wake, w.schedule.phase = .waiting wake ∧ a = .slept ∧ wake ≤ clock.now := by
  have hsteps := h.steps
  rw [hf] at hsteps
  cases hsteps with
  | fires wake hp hle _ _ =>
    refine ⟨wake, hp, ?_, hle⟩
    unfold starts at hf
    split at hf
    · rfl
    · cases hf

end WalaStack.Proof.Scheduler
