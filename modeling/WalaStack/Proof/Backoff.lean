import WalaStack.Proof.Scheduler.Steps
import WalaStack.Spec.Backoff

/-!
# The wait before a retry

The scheduler and the watcher wait `delay_for(k - 1)` after attempt `k`
(`schedulerWaits`, `watcherWaits`). `dispatch_one` passes the attempt itself,
so it waits one step more, and a second where `chrono` has no such duration
(`workerWaits_iff`): the three agree for a step of zero and next to nothing
else (`agree_iff`).
-/

namespace WalaStack.Proof.Backoff

open WalaStack.Rust WalaStack.Impl.Runtime WalaStack.Impl.Jobs WalaStack.Spec.Backoff

variable {base step : Duration} {k : Nat} {now : DateTime}

/-- `delay_for(k - 1)` is the wait that is documented. -/
theorem delayFor_pred (base step : Duration) (ns k : Nat) :
    ((Backoff.linear base step).delayFor ns (k - 1)).nanos = linearWait base step k :=
  delayFor_linear ns (k - 1) base step

/-! ## The scheduler and the watcher -/

theorem schedulerWaits (base step : Duration) (k : Nat) :
    SchedulerWaits (.linear base step) k (linearWait base step k) := by
  intro cfg maxAttempts clock s s' firedAt startedAt ns outcome hretry hk hs hfail h
  have hmax : k < cfg.policies.maxAttempts := by
    rw [Policies.maxAttempts, hretry]
    exact lt_max_of_lt_left hk
  have hdelay : (cfg.policies.retryDelay ns k).nanos = linearWait base step k := by
    rw [Policies.retryDelay, hretry]
    exact delayFor_pred base step ns k
  have hresult : ∃ err, s' = s.onResult cfg clock k firedAt ns (.error err) := by
    cases Scheduler.scheduleSteps_of_step h with
    | @returned _ _ _ _ result hp =>
      cases hs.symm.trans hp
      cases result with
      | ok => exact hfail.elim
      | error err => exact ⟨err, rfl⟩
    | timedOut hp =>
      cases hs.symm.trans hp
      exact ⟨_, rfl⟩
    | panicked => exact hfail.elim
  obtain ⟨err, rfl⟩ := hresult
  simp only [Schedule.onResult, hmax, ite_true]
  exact ⟨by rw [← hdelay]; rfl, _, hdelay, rfl⟩

theorem watcherWaits (base step : Duration) (k : Nat) :
    WatcherWaits (.linear base step) k (linearWait base step k) := by
  intro svc kernel w ns r hb hk hp hr hc hpermit
  have hdelay : (svc.policy.backoffForAttempt ns w.attempt).nanos = linearWait base step k := by
    rw [hk]
    cases hpol : svc.policy with
    | oneShot => rw [hpol] at hb; cases hb
    | onFailure maxAttempts backoff | always backoff =>
      rw [hpol] at hb
      obtain rfl := Option.some.inj hb
      exact delayFor_pred base step ns k
  refine ⟨w.onJoin svc kernel ns r, by simp only [Watcher.step, hp, hr], ?_⟩
  cases r with
  | cancelled => exact absurd rfl hc
  | panic err =>
    have hpermit : svc.policy.permitsRestartAfter w.attempt true = true := by rw [hk]; exact hpermit
    simp only [Watcher.onJoin, hpermit, Watcher.backOff, ite_true]
    rw [← hdelay]
    rfl
  | ok =>
    have hpermit : svc.policy.permitsRestartAfter w.attempt false = true := by rw [hk]; exact hpermit
    have halways : svc.policy.isAlways = true := by
      cases hpol : svc.policy <;> rw [hpol] at hpermit <;>
        simp_all [RestartPolicy.permitsRestartAfter, RestartPolicy.isAlways]
    have hpublished : svc.policy.permitsRestartAfter (w.publish (.stopped svc.name)).attempt false = true := hpermit
    simp only [Watcher.onJoin, halways, hpublished, Watcher.backOff, ite_true]
    rw [← hdelay]
    rfl

/-! ## The jobs worker -/

/-- The wait of `dispatch_one`: one step more, or a second. -/
def workerWait (base step : Duration) (k : Nat) : Nat :=
  ((TimeDelta.fromStd ((Backoff.linear base step).delayFor 0 k)).getD TimeDelta.oneSecond).nanos

theorem workerWait_eq (base step : Duration) (k : Nat) :
    workerWait base step k = if min (base.nanos + step.nanos * k) Duration.max.nanos ≤ maxDeltaNanos then
      min (base.nanos + step.nanos * k) Duration.max.nanos else 1000000000 := by
  have hdelay := delayFor_linear 0 k base step
  rw [workerWait, TimeDelta.fromStd, ← hdelay]
  split <;> rfl

/-- Where the sum is a `DateTime`. -/
theorem exists_add {t : DateTime} {d : TimeDelta} {n : Int} :
    (∃ u, t.add d = some u ∧ u.nanos = n) ↔ t.nanos + d.nanos ≤ maxUtcNanos ∧ n = t.nanos + d.nanos := by
  constructor
  · rintro ⟨u, hu, rfl⟩
    have hnanos : u.nanos = t.nanos + d.nanos := DateTime.add_eq_some.mp hu
    exact ⟨by rw [← hnanos]; exact u.le_max, hnanos⟩
  · rintro ⟨hle, rfl⟩
    exact ⟨_, dif_pos hle, rfl⟩

/-- The retry branch of `dispatch_one`. -/
theorem conclude_retry {config : JobsConfig} {entry : HandlerEntry} {elapsed ns : Nat} {r : JobRecord}
    {error : String} {n : Int} (hk : r.attempt.val < r.maxAttempts.val) :
    (∃ es at_, conclude config entry elapsed now ns r (.error error) = (es, .ok (.failed error (some at_))) ∧
      at_.nanos = n) ↔
    ∃ at_, nextAttemptAt now (retryDelay config entry ns r) = some at_ ∧ at_.nanos = n := by
  have hle : ¬ r.maxAttempts.val ≤ r.attempt.val := Nat.not_le_of_lt hk
  simp only [conclude, hle, ite_false]
  cases nextAttemptAt now (retryDelay config entry ns r) with
  | none =>
    refine iff_of_false ?_ fun ⟨_, h, _⟩ => (by cases h)
    rintro ⟨es, at_, h, -⟩
    cases (Prod.mk.inj h).2
  | some u =>
    constructor
    · rintro ⟨es, at_, h, rfl⟩
      obtain ⟨-, hu⟩ := Prod.mk.inj h
      obtain ⟨-, hu⟩ := Mark.failed.inj (Except.ok.inj hu)
      exact ⟨at_, hu, rfl⟩
    · rintro ⟨at_, h, rfl⟩
      obtain rfl := Option.some.inj h
      exact ⟨_, u, rfl, rfl⟩

/-- A configuration, and a record of attempt `k` with attempts left. -/
def retryConfig (backoff : Backoff) : JobsConfig where
  workerCount := 1
  queues := ["default"]
  defaultQueue := "default"
  defaultMaxAttempts := U32.max
  defaultBackoff := backoff
  pollInterval := Duration.fromSecs 1

def retryRecord (k : U32) (now : DateTime) : JobRecord where
  id := ⟨1⟩
  name := ⟨"report"⟩
  queue := "default"
  payload := .null
  status := .running
  attempt := k
  maxAttempts := U32.max
  enqueuedAt := now
  scheduledAt := now

theorem workerWaits_iff (base step : Duration) (k : U32) (now : DateTime) (d : Nat) :
    WorkerWaits (.linear base step) k.val now d ↔
      k = U32.max ∨ (now.nanos + workerWait base step k.val ≤ maxUtcNanos ∧ d = workerWait base step k.val) := by
  constructor
  · intro h
    by_cases hk : k.val < u32Max
    · have hc := h (retryConfig (.linear base step)) ⟨none, none, none, none⟩ 0 0 (retryRecord k now) "refused"
        rfl rfl hk
      rw [conclude_retry (show (retryRecord k now).attempt.val < (retryRecord k now).maxAttempts.val from hk)] at hc
      obtain ⟨hle, hd⟩ := exists_add.mp hc
      exact .inr ⟨hle, by exact_mod_cast add_left_cancel hd⟩
    · exact .inl (U32.ext (Nat.le_antisymm k.le_max (Nat.le_of_not_lt hk)))
  · rintro h config entry elapsed ns r error hb hr hk
    have hne : k ≠ U32.max := by
      rintro rfl
      exact absurd r.maxAttempts.le_max (Nat.not_le_of_lt hk)
    obtain ⟨hle, rfl⟩ := h.resolve_left hne
    have hdelay : retryDelay config entry ns r = (Backoff.linear base step).delayFor 0 k.val := by
      rw [retryDelay, hb, hr]
      rfl
    rw [conclude_retry (by rw [hr]; exact hk), hdelay]
    exact exists_add.mpr ⟨hle, rfl⟩

/-- The two waits are the same for a step of zero, or for the first retry by
accident. -/
theorem workerWait_eq_linearWait {k : Nat} (hk : 1 ≤ k) : workerWait base step k = linearWait base step k ↔
    (step.nanos = 0 ∧ base.nanos ≤ maxDeltaNanos) ∨
      (k = 1 ∧ base.nanos = 1000000000 ∧ maxDeltaNanos < base.nanos + step.nanos) := by
  have hmul : step.nanos * k = step.nanos * (k - 1) + step.nanos := by
    rw [← Nat.mul_succ, Nat.succ_eq_add_one, Nat.sub_add_cancel hk]
  have hmax : Duration.max.nanos = 18446744073709551615999999999 := rfl
  have hdelta : maxDeltaNanos = 9223372036854775807000000 := rfl
  rw [workerWait_eq, linearWait, hmul, hmax, hdelta]
  rcases Nat.eq_or_lt_of_le hk with rfl | hk
  · rw [Nat.sub_self, Nat.mul_zero]
    split <;> omega
  · have hle : step.nanos ≤ step.nanos * (k - 1) := Nat.le_mul_of_pos_right _ (Nat.sub_pos_of_lt hk)
    have hzero : step.nanos = 0 → step.nanos * (k - 1) = 0 := fun h => by rw [h, Nat.zero_mul]
    split <;> omega

/-! ## The three loops -/

/-- After attempt `k` of a linear backoff the three loops wait
`base + (k - 1) * step`, exactly if no job is retried any more, or the step is
zero and the time of the retry is one that `chrono` represents, or `base` is
the second that `dispatch_one` falls back to. -/
theorem agree_iff (base step : Duration) (k : U32) (now : DateTime) (hk : 1 ≤ k.val) :
    Agree (.linear base step) k.val now (linearWait base step k.val) ↔
      k = U32.max ∨
      (step = Duration.zero ∧ base.nanos ≤ maxDeltaNanos ∧ now.nanos + base.nanos ≤ maxUtcNanos) ∨
      (k.val = 1 ∧ base = Duration.fromSecs 1 ∧ maxDeltaNanos < base.nanos + step.nanos ∧
        now.nanos + base.nanos ≤ maxUtcNanos) := by
  have hzero : step = Duration.zero ↔ step.nanos = 0 := Duration.ext_iff
  have hsec : base = Duration.fromSecs 1 ↔ base.nanos = 1000000000 := Duration.ext_iff
  have hagree : Agree (.linear base step) k.val now (linearWait base step k.val) ↔
      WorkerWaits (.linear base step) k.val now (linearWait base step k.val) :=
    ⟨fun h => h.2.2, fun h => ⟨schedulerWaits base step k.val, watcherWaits base step k.val, h⟩⟩
  -- In either case the first retry waits `base`.
  have hwait : workerWait base step k.val = linearWait base step k.val →
      (step.nanos = 0 ∨ k.val = 1) → workerWait base step k.val = base.nanos := by
    intro h hor
    have hmul : step.nanos * (k.val - 1) = 0 := by
      rcases hor with h | h <;> rw [h]
      · exact Nat.zero_mul _
      · exact Nat.mul_zero _
    rw [h, linearWait, hmul, Nat.add_zero]
    exact Nat.min_eq_left base.le_max
  rw [hagree, workerWaits_iff, hzero, hsec]
  constructor
  · rintro (h | ⟨hle, heq⟩)
    · exact .inl h
    · rcases (workerWait_eq_linearWait hk).mp heq.symm with ⟨hs, hb⟩ | ⟨h1, hb, hd⟩
      · rw [hwait heq.symm (.inl hs)] at hle
        exact .inr (.inl ⟨hs, hb, hle⟩)
      · rw [hwait heq.symm (.inr h1)] at hle
        exact .inr (.inr ⟨h1, hb, hd, hle⟩)
  · rintro (h | ⟨hs, hb, hle⟩ | ⟨h1, hb, hd, hle⟩)
    · exact .inl h
    · have heq := (workerWait_eq_linearWait hk).mpr (.inl ⟨hs, hb⟩)
      rw [← hwait heq (.inl hs)] at hle
      exact .inr ⟨hle, heq.symm⟩
    · have heq := (workerWait_eq_linearWait hk).mpr (.inr ⟨h1, hb, hd⟩)
      rw [← hwait heq (.inr h1)] at hle
      exact .inr ⟨hle, heq.symm⟩

/-- A constant backoff. -/
theorem agree_constant : Agree (.linear (Duration.fromSecs 1) Duration.zero) 1 DateTime.epoch 1000000000 :=
  (agree_iff (Duration.fromSecs 1) Duration.zero 1 DateTime.epoch (by decide)).mpr
    (.inr (.inl ⟨rfl, by decide, by decide⟩))

/-- With a step of a second, the first retry of a job waits two. -/
theorem not_agree : ¬ ∀ (base step : Duration) (k : U32) (now : DateTime), 1 ≤ k.val →
    Agree (.linear base step) k.val now (linearWait base step k.val) := by
  intro h
  have hwaits := (h (Duration.fromSecs 1) (Duration.fromSecs 1) 1 DateTime.epoch (by decide)).2.2
  rcases (workerWaits_iff _ _ _ _ _).mp hwaits with hk | ⟨-, hd⟩
  · cases hk
  · exact absurd hd (by decide)

end WalaStack.Proof.Backoff
