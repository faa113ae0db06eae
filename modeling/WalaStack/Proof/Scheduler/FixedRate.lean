import Mathlib.Tactic.Ring
import WalaStack.Proof.Scheduler.Waits

/-!
# The fires of a fixed rate

In exact time, the first fire comes a period after the start, and a later one at
the end of the fire before it or a period after its beginning, whichever is
later (`RateInv.wake_eq`). In the first case it is a catch-up; in the second it
is as far from a multiple of the period as the fire before (`aligned_iff`).
-/

namespace WalaStack.Proof.Scheduler

open WalaStack.Rust WalaStack.Impl.Runtime WalaStack.Transition WalaStack.Spec.Scheduler

variable {cfg : Scheduled} {clock : Clock} {a : ScheduleAction} {w w' : Timed} {period : Duration} {t₀ : Nat}

/-- The first wait begins at the start, and a later one after the fire before. -/
structure RateInv (cfg : Scheduled) (t₀ : Nat) (w : Timed) : Prop where
  waits : Waits cfg w
  since_le : w.since.now ≤ w.clock.now
  start_le : t₀ ≤ w.since.now
  first : w.schedule.lastFire = none → ∀ wake, w.schedule.phase = .waiting wake → w.since.now = t₀
  work : AtWork w.schedule → w.schedule.lastFire ≠ none
  last : ∀ last, w.schedule.lastFire = some last → t₀ ≤ last ∧ last ≤ w.since.now

theorem rateInv_init (cfg : Scheduled) (clock : Clock) : RateInv cfg clock.now (.init cfg clock) :=
  ⟨waits_init cfg clock, le_rfl, le_rfl, fun _ _ _ => rfl, False.elim, fun _ h => by cases h⟩

theorem rateInv_step (h : RateInv cfg t₀ w) (hs : TimedSteps cfg exactly w clock a w') : RateInv cfg t₀ w' := by
  have hpace := hs.paced
  simp only [exactly, Bool.and_eq_true, decide_eq_true_eq] at hpace
  have hstart := h.start_le
  have hsince := hs.since_bounds (fun c => c.now) h.since_le hpace.1
  have hsteps := hs.steps
  have hwaits := hs.waits h.waits
  cases hb : starts w.schedule a with
  | true =>
    have hnew := hs.since_of_fire hb
    rw [hb] at hsteps
    cases hsteps with
    | fires wake hp hwake hwork hl =>
      refine ⟨hwaits, by rw [hs.clock_eq]; exact hsince.2, by omega, fun hn => ?_, fun _ hn => ?_, fun last hlast => ?_⟩
      · rw [hl] at hn
        cases hn
      · rw [hl] at hn
        cases hn
      · rw [hl] at hlast
        cases hlast
        rw [hnew]
        exact ⟨by omega, le_rfl⟩
  | false =>
    rw [hb] at hsteps
    have hkept : w'.schedule.lastFire = w.schedule.lastFire := by cases hsteps <;> assumption
    refine ⟨hwaits, by rw [hs.clock_eq]; exact hsince.2, by omega, fun hn wake hp => ?_, fun hwork => ?_,
      fun last hlast => ?_⟩
    · rw [hkept] at hn
      cases hsteps with
      | begins hwork => exact absurd hn (h.work hwork)
      | goesOn hkeep =>
        have hold := hkeep wake hp
        rw [hs.since_eq, if_pos (hp.trans hold.symm)]
        exact h.first hn wake hold
    · rw [hkept]
      cases hsteps with
      | begins hwork' => exact h.work hwork'
      | goesOn _ hwork' => exact h.work (hwork' hwork)
    · rw [hkept] at hlast
      have hbound := h.last last hlast
      exact ⟨hbound.1, by omega⟩

/-- When the wait for a fire is over. -/
theorem RateInv.wake_eq {wake : Nat} (h : RateInv cfg t₀ w) (htrigger : cfg.trigger = .fixedRate period)
    (hp : w.schedule.phase = .waiting wake) :
    (w.schedule.lastFire = none ∧ wake = t₀ + period.nanos) ∨
      ∃ last, w.schedule.lastFire = some last ∧ t₀ ≤ last ∧ wake = max (last + period.nanos) w.since.now := by
  have hwake := h.waits wake hp
  rw [htrigger] at hwake
  cases hl : w.schedule.lastFire with
  | none =>
    rw [hl] at hwake
    simp only [nextDelay, h.first hl wake hp] at hwake
    exact .inl ⟨rfl, hwake⟩
  | some last =>
    have hbound := h.last last hl
    rw [hl] at hwake
    refine .inr ⟨last, rfl, hbound.1, ?_⟩
    simp only [nextDelay, Duration.checkedSub] at hwake
    split at hwake
    · simp only [Option.getD_some] at hwake
      omega
    · simp only [Option.getD_none, Duration.zero] at hwake
      omega

/-- The end of a task that has run for a period or more is at a multiple of the
period, or one has passed during the task. -/
theorem grid_of_overrun {P last ended : Nat} (hP : 0 < P) (hlast : t₀ ≤ last) (hlong : last + P ≤ ended) :
    (∃ k, 1 ≤ k ∧ ended = t₀ + k * P) ∨ ∃ k, last < t₀ + k * P ∧ t₀ + k * P < ended := by
  have hdiv := Nat.div_add_mod (ended - t₀) P
  have hmod := Nat.mod_lt (ended - t₀) hP
  rw [Nat.mul_comm] at hdiv
  have hone : 1 ≤ (ended - t₀) / P := (Nat.one_le_div_iff hP).mpr (by omega)
  rcases Nat.eq_zero_or_pos ((ended - t₀) % P) with hz | hpos
  · exact .inl ⟨(ended - t₀) / P, hone, by omega⟩
  · exact .inr ⟨(ended - t₀) / P, by omega, by omega⟩

/-- A fire is aligned exactly if it comes after an overrun, or the fire before it
was at a multiple of the period. -/
theorem aligned_iff {P last ended : Nat} {f : Fire} (hP : 0 < P) (hlast : t₀ ≤ last) (hf : f.last = some last)
    (hended : f.since.now = ended) (hat : f.at_.now = max (last + P) ended) :
    Aligned t₀ P f ↔ (ended - last < P → P ∣ last - t₀) := by
  subst hended
  rcases Nat.lt_or_ge (f.since.now - last) P with hshort | hlong
  · have hat' : f.at_.now = last + P := by omega
    rw [Aligned, CatchesUp, hat']
    constructor
    · rintro (⟨k, hk, he⟩ | ⟨he, -⟩) _
      · refine ⟨k - 1, ?_⟩
        obtain ⟨j, rfl⟩ := Nat.exists_eq_add_of_le' hk
        have hmul : (j + 1) * P = P * j + P := by ring
        rw [Nat.add_sub_cancel]
        omega
      · omega
    · intro hdvd
      obtain ⟨k, hk⟩ := hdvd hshort
      refine .inl ⟨k + 1, Nat.le_add_left 1 k, ?_⟩
      have hmul : (k + 1) * P = P * k + P := by ring
      omega
  · refine iff_of_true ?_ fun hshort => absurd hshort (Nat.not_lt.mpr hlong)
    have hat' : f.at_.now = f.since.now := by omega
    rcases grid_of_overrun hP hlast (show last + P ≤ f.since.now by omega) with hgrid | ⟨k, hk⟩
    · rw [← hat'] at hgrid
      exact .inl hgrid
    · exact .inr ⟨hat', last, k, hf, hk⟩

/-- A fire is aligned exactly if it follows a fire that was, or an overrun. -/
theorem aligned_step (hP : 0 < period.nanos) (htrigger : cfg.trigger = .fixedRate period) (h : RateInv cfg t₀ w)
    (ha : ∀ f ∈ w.fires, Aligned t₀ period.nanos f) (hs : TimedSteps cfg exactly w clock a w') :
    (∀ f ∈ w'.fires, Aligned t₀ period.nanos f) ↔ FollowsAligned t₀ period.nanos w (clock, a) := by
  rw [hs.forall_fires, and_iff_right ha, FollowsAligned]
  refine imp_congr_right fun hb => ?_
  obtain ⟨wake, hp, rfl, -⟩ := hs.wake_le hb
  have hpace := hs.paced
  simp only [exactly, hp, Bool.and_eq_true, decide_eq_true_eq] at hpace
  rcases h.wake_eq htrigger hp with ⟨hl, hwake⟩ | ⟨last, hl, hle, hwake⟩
  · refine iff_of_true (.inl ⟨1, le_rfl, ?_⟩) fun last hl' => ?_
    · show clock.now = t₀ + 1 * period.nanos
      omega
    · rw [hl] at hl'
      cases hl'
  · rw [aligned_iff hP hle hl rfl (hpace.2.trans hwake)]
    exact ⟨fun hdvd last' hl' => by rw [hl] at hl'; cases hl'; exact hdvd, fun hdvd => hdvd last hl⟩

/-- The fires of a fixed rate are aligned, but for those that catch up, exactly
if every fire after a task shorter than the period follows a fire at a multiple
of the period. -/
theorem fixed_rate_iff (period : Duration) (hP : 0 < period.nanos) (cfg : Scheduled)
    (htrigger : cfg.trigger = .fixedRate period) (clock : Clock) (as : List (Clock × ScheduleAction)) (w : Timed)
    (hrun : exec (Timed.step cfg exactly) (.init cfg clock) as = some w) :
    AlongStates (Timed.step cfg exactly) (fun w => ∀ f ∈ w.fires, Aligned clock.now period.nanos f) (.init cfg clock) as ↔
      AlongSteps (Timed.step cfg exactly) (FollowsAligned clock.now period.nanos) (.init cfg clock) as :=
  alongStates_iff_alongSteps (I := RateInv cfg clock.now)
    (fun {_ a _} h hs => rateInv_step h (timedSteps_of_step (a := a.2) hs))
    (fun {_ a _} h ha hs => aligned_step hP htrigger h ha (timedSteps_of_step (a := a.2) hs)) (rateInv_init cfg clock)
    (fun _ hm => absurd hm List.not_mem_nil) hrun

/-! ## An overrun -/

/-- A task that is due every second. -/
def secondly : Scheduled := ⟨1, .fixedRate (.fromSecs 1), ⟨none, none⟩, true⟩

/-- The clocks, some tenths of a second after the start. -/
def atTenth (tenths : Nat) : Clock := ⟨tenths * 100000000, .epoch⟩

/-- The first task takes a second and a half, and the next fire catches up. -/
def overrun : List (Clock × ScheduleAction) :=
  [(atTenth 10, .slept), (atTenth 25, .resolved (.returned (.ok ())) 0), (atTenth 25, .slept)]

theorem fixed_rate_overrun : AlongStates (Timed.step secondly exactly)
    (fun w => ∀ f ∈ w.fires, Aligned 0 1000000000 f) (.init secondly (atTenth 0)) overrun := by
  refine (fixed_rate_iff (.fromSecs 1) (by decide) secondly rfl (atTenth 0) overrun _ rfl).mpr ?_
  refine (alongSteps_cons_of rfl _).mpr ⟨fun _ last hl => (by cases hl), ?_⟩
  refine (alongSteps_cons_of rfl _).mpr ⟨fun hc => Bool.noConfusion hc, ?_⟩
  refine (alongSteps_cons_of rfl _).mpr ⟨fun _ last hl hshort => ?_, trivial⟩
  cases hl
  exact absurd hshort (by decide)

/-- The second task is a short one, and the third fire comes a period after it. -/
theorem not_fixed_rate_shifted : ¬ ∀ (period : Duration), 0 < period.nanos → ∀ cfg : Scheduled,
    cfg.trigger = .fixedRate period → ∀ clock as w, exec (Timed.step cfg exactly) (.init cfg clock) as = some w →
    ∀ f ∈ w.fires, Aligned clock.now period.nanos f := by
  intro h
  have haligned := h (.fromSecs 1) (by decide) secondly rfl (atTenth 0)
    (overrun ++ [(atTenth 26, .resolved (.returned (.ok ())) 0), (atTenth 35, .slept)]) _ rfl
    ⟨some 2500000000, atTenth 26, atTenth 35⟩ (.tail _ (.tail _ (.head _)))
  rcases haligned with ⟨k, -, hk⟩ | ⟨hk, -⟩
  · change 3500000000 = 0 + k * 1000000000 at hk
    omega
  · exact absurd hk (by decide)

end WalaStack.Proof.Scheduler
