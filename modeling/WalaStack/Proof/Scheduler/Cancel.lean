import WalaStack.Proof.Scheduler.Trace

/-!
# Cancellation is final

The channel's value stays `true` once `cancel` has set it, whoever has seen the
change, and both loops read it before they go on: a step of a cancelled
schedule begins nothing (`quiet_step`).
-/

namespace WalaStack.Proof.Scheduler

open WalaStack.Rust WalaStack.Impl.Runtime WalaStack.Transition WalaStack.Spec.Scheduler

variable {cfg : Scheduled} {clock : Clock} {s s' s'' : Schedule}

/-- The schedule stays cancelled, and begins nothing. -/
def Quiet (s s' : Schedule) : Prop :=
  s'.cancelled = true ∧ ∃ es, s'.history = s.history ++ es ∧ ∀ e ∈ es, begins e = false

theorem Quiet.of_eq (hc : s'.cancelled = true) (hh : s'.history = s.history) : Quiet s s' :=
  ⟨hc, [], by rw [hh, List.append_nil], nofun⟩

theorem Quiet.trans (h : Quiet s s') (h' : Quiet s' s'') : Quiet s s'' := by
  obtain ⟨-, es, he, hb⟩ := h
  obtain ⟨hc, es', he', hb'⟩ := h'
  refine ⟨hc, es ++ es', by rw [he', he, List.append_assoc], fun e hm => ?_⟩
  rcases List.mem_append.mp hm with hm | hm
  · exact hb e hm
  · exact hb' e hm

theorem quiet_publish (cfg : Scheduled) (e : TaskEvent) (hc : s.cancelled = true) (he : begins (.published e) = false) :
    Quiet s (s.publish cfg e) := by
  refine ⟨by rw [publish_cancelled, hc], ?_⟩
  unfold Schedule.publish
  split
  · refine ⟨[.published e], rfl, fun x hx => ?_⟩
    rw [List.mem_singleton.mp hx]
    exact he
  · exact ⟨[], by rw [List.append_nil], nofun⟩

theorem quiet_afterFire (hc : s.cancelled = true) : Quiet s (s.afterFire cfg clock) := by
  unfold Schedule.afterFire
  split <;> exact .of_eq hc rfl

theorem quiet_beginAttempt (attempt firedAt : Nat) (hc : s.cancelled = true) :
    Quiet s (s.beginAttempt cfg clock attempt firedAt) := by
  rw [Schedule.beginAttempt, if_pos hc]
  exact quiet_afterFire hc

theorem quiet_onResult (attempt firedAt subsecNanos : Nat) (result : Except String Unit) (hc : s.cancelled = true) :
    Quiet s (s.onResult cfg clock attempt firedAt subsecNanos result) := by
  cases result with
  | ok u =>
    have hpublish := quiet_publish cfg (.completed cfg.id (clock.now - firedAt)) hc rfl
    exact hpublish.trans (quiet_afterFire hpublish.1)
  | error e =>
    by_cases hlt : attempt < cfg.policies.maxAttempts <;> simp only [Schedule.onResult, hlt, ite_true, ite_false]
    · have hpublish := quiet_publish cfg
        (.retrying cfg.id (attempt + 1) (cfg.policies.retryDelay subsecNanos attempt)) hc rfl
      exact hpublish.trans (.of_eq hpublish.1 rfl)
    · have hpublish := quiet_publish cfg (.failed cfg.id e cfg.policies.maxAttempts) hc rfl
      exact hpublish.trans (quiet_afterFire hpublish.1)

theorem quiet_step {a : Clock × ScheduleAction} (hc : s.cancelled = true) (hs : timedStep cfg s a = some s') :
    Quiet s s' := by
  obtain ⟨clock, a⟩ := a
  have hsteps : ScheduleSteps cfg clock s a s' := scheduleSteps_of_step hs
  cases hsteps with
  | stop | leaveWait | panicked => exact .of_eq hc rfl
  | fire _ _ hlive => exact absurd (hc.symm.trans hlive) Bool.noConfusion
  | retry => exact quiet_beginAttempt _ _ hc
  | leaveBackoff =>
    have hseen : Quiet s { s with unseen := false } := .of_eq hc rfl
    exact hseen.trans (quiet_afterFire hc)
  | returned | timedOut => exact quiet_onResult _ _ _ _ hc
  | cancel | shutdown => exact .of_eq rfl rfl

theorem quiet_run {as : List (Clock × ScheduleAction)} (hc : s.cancelled = true)
    (hs : exec (timedStep cfg) s as = some s') : Quiet s s' :=
  exec_invariant (I := Quiet s) (fun hq hstep => hq.trans (quiet_step hq.1 hstep)) (.of_eq hc rfl) hs

/-- In whatever state a schedule is cancelled, and whatever it does after that,
it announces no fire and calls the function no more. -/
theorem cancel_final (cfg : Scheduled) (clock : Clock) (s s' : Schedule)
    (hcancel : timedStep cfg s (clock, .cancel) = some s') : BeginsNothing cfg s' := by
  intro as s'' hrun
  cases hcancel
  exact (quiet_run rfl hrun).2

/-- A task that is due every second, and has two attempts. -/
def everySecond : Scheduled := { twoAttempts with trigger := .fixedRate (.fromSecs 1) }

/-- The wait for its second attempt. -/
def backedOff : Schedule where
  phase := .backingOff 1 1000000000 2000000000
  triggerCount := 1
  lastFire := some 1000000000
  cancelled := false
  unseen := false
  history := [.published (.fired 1 1), .called 1 1000000000, .published (.retrying 1 2 (.fromSecs 1))]

example : exec (timedStep everySecond) (.init everySecond (atSecond 0))
    [(atSecond 1, .slept), (atSecond 1, .resolved (.returned (.error "refused")) 0)] = some backedOff := rfl

theorem cancel_final_backoff : BeginsNothing everySecond { backedOff with cancelled := true, unseen := true } :=
  cancel_final everySecond (atSecond 1) backedOff _ rfl

end WalaStack.Proof.Scheduler
