import WalaStack.Proof.Backoff

/-!
# The time of a job's retry

`dispatch_one` adds the delay to the present, or a second where the delay is no
`chrono::Duration` (`retriesAt_iff`). So the time of the retry is right as long
as it is a `DateTime` at all (`retrySafe_iff`).
-/

namespace WalaStack.Proof.Backoff

open WalaStack.Rust WalaStack.Impl.Runtime WalaStack.Impl.Jobs WalaStack.Spec.Backoff

variable {config : JobsConfig} {entry : HandlerEntry} {base step : Duration} {now at_ : DateTime} {r : JobRecord}

theorem workerWait_of_le {k : Nat} (h : linearDelay base step k ≤ maxDeltaNanos) :
    workerWait base step k = linearDelay base step k := by
  rw [workerWait_eq]
  exact if_pos h

theorem workerWait_of_lt {k : Nat} (h : maxDeltaNanos < linearDelay base step k) :
    workerWait base step k = 1000000000 := by
  rw [workerWait_eq]
  exact if_neg (Nat.not_le_of_lt h)

theorem linearDelay_mono {k m : Nat} (h : m ≤ k) : linearDelay base step m ≤ linearDelay base step k := by
  have hmul : step.nanos * m ≤ step.nanos * k := Nat.mul_le_mul_left _ h
  rw [linearDelay, linearDelay]
  omega

/-- The time from any instant to the last one is a `chrono::Duration`. -/
theorem sub_lt_maxDelta (now : DateTime) : maxUtcNanos - now.nanos < maxDeltaNanos := by
  have hspan : maxUtcNanos - minUtcNanos < maxDeltaNanos := by decide
  have hmin := now.min_le
  omega

theorem longestDelay_eq (now : DateTime) : (longestDelay now : Int) = maxUtcNanos - now.nanos := by
  have hspan := sub_lt_maxDelta now
  have hmax := now.le_max
  rw [longestDelay]
  omega

/-- The time of the retry of an attempt that is not the last. -/
theorem retriesAt_iff (hb : entry.metadata.backoff.getD config.defaultBackoff = .linear base step)
    (hk : r.attempt.val < r.maxAttempts.val) :
    RetriesAt config entry now r at_ ↔ at_.nanos = now.nanos + workerWait base step r.attempt.val := by
  have hdelay : ∀ ns, retryDelay config entry ns r = (Backoff.linear base step).delayFor 0 r.attempt.val := fun ns => by
    rw [retryDelay, hb]
    rfl
  have hadd : nextAttemptAt now ((Backoff.linear base step).delayFor 0 r.attempt.val) = some at_ ↔
      at_.nanos = now.nanos + workerWait base step r.attempt.val := DateTime.add_eq_some
  have hle : ¬ r.maxAttempts.val ≤ r.attempt.val := Nat.not_le_of_lt hk
  rw [← hadd]
  constructor
  · intro h
    have hc := h 0 0 ""
    simp only [conclude, if_neg hle, hdelay] at hc
    split at hc
    · exact absurd hc (by simp)
    · rename_i u hu
      obtain ⟨-, heq⟩ := Mark.failed.inj (Except.ok.inj hc)
      rw [hu, heq]
  · intro h elapsed ns error
    simp only [conclude, if_neg hle, hdelay, h]

/-- The retry of an attempt is safe exactly if its time is a `DateTime`, or, by
accident, if the second that stands for a delay that is no `chrono::Duration`
is all the time that is left. -/
theorem retrySafe_iff (config : JobsConfig) (entry : HandlerEntry) (base step : Duration) (now : DateTime)
    (r : JobRecord) (hb : entry.metadata.backoff.getD config.defaultBackoff = .linear base step)
    (hk : r.attempt.val < r.maxAttempts.val) :
    RetrySafe config entry base step now r ↔
      now.nanos + linearDelay base step r.attempt.val ≤ maxUtcNanos ∨
      (maxDeltaNanos < linearDelay base step r.attempt.val ∧ now.nanos + 1000000000 = maxUtcNanos) := by
  have hspan := sub_lt_maxDelta now
  have hlongest := longestDelay_eq now
  have hearlier : ∀ (m : U32) (earlier : DateTime), m.val ≤ r.attempt.val →
      RetriesAt config entry now { r with attempt := m } earlier → earlier.nanos = now.nanos + workerWait base step m.val :=
    fun m earlier hm h => (retriesAt_iff (r := { r with attempt := m }) hb (Nat.lt_of_le_of_lt hm hk)).mp h
  constructor
  · rintro ⟨at_, hat, hwait, -⟩
    rw [retriesAt_iff hb hk] at hat
    have hmax := at_.le_max
    rcases Nat.lt_or_ge maxDeltaNanos (linearDelay base step r.attempt.val) with hd | hd
    · rw [workerWait_of_lt hd] at hat
      exact .inr ⟨hd, by omega⟩
    · rw [workerWait_of_le hd] at hat
      exact .inl (by omega)
  · rintro (hfits | ⟨hd, hlast⟩)
    · have hd : linearDelay base step r.attempt.val ≤ maxDeltaNanos := by omega
      have hmin := now.min_le
      refine ⟨⟨now.nanos + linearDelay base step r.attempt.val, by omega, hfits⟩, ?_, ?_, ?_⟩
      · rw [retriesAt_iff hb hk, workerWait_of_le hd]
      · show now.nanos + _ ≤ now.nanos + (linearDelay base step r.attempt.val : Int)
        omega
      · intro m earlier hm h
        have hmono : linearDelay base step m.val ≤ linearDelay base step r.attempt.val := linearDelay_mono hm
        have heq := hearlier m earlier hm h
        rw [workerWait_of_le (Nat.le_trans hmono hd)] at heq
        show earlier.nanos ≤ now.nanos + (linearDelay base step r.attempt.val : Int)
        omega
    · -- Every time is at most the last one.
      refine ⟨⟨maxUtcNanos, by decide, by decide⟩, ?_, ?_, fun m earlier _ _ => earlier.le_max⟩
      · rw [retriesAt_iff hb hk, workerWait_of_lt hd]
        exact hlast.symm
      · show now.nanos + _ ≤ maxUtcNanos
        omega

/-- A backoff of a second and half a second more for each attempt. -/
theorem retrySafe_seconds :
    RetrySafe (retryConfig (.linear (Duration.fromSecs 1) (Duration.fromNanos 500000000))) ⟨none, none, none, none⟩
      (Duration.fromSecs 1) (Duration.fromNanos 500000000) DateTime.epoch (retryRecord 1 DateTime.epoch) :=
  (retrySafe_iff _ _ _ _ _ _ rfl (by decide)).mpr (.inl (by decide))

/-- The longest delay, for a job that is not to be retried, is a second. -/
theorem not_retrySafe_max : ¬ ∀ (config : JobsConfig) (entry : HandlerEntry) (base step : Duration) (now : DateTime)
    (r : JobRecord), entry.metadata.backoff.getD config.defaultBackoff = .linear base step →
    r.attempt.val < r.maxAttempts.val → RetrySafe config entry base step now r := by
  intro h
  obtain ⟨at_, hat, hwait, -⟩ := h (retryConfig (.linear Duration.max Duration.zero)) ⟨none, none, none, none⟩
    Duration.max Duration.zero DateTime.epoch (retryRecord 1 DateTime.epoch) rfl (by decide)
  rw [(retriesAt_iff rfl (by decide)).mp hat] at hwait
  exact absurd hwait (by decide)

end WalaStack.Proof.Backoff
