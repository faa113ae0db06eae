import WalaStack.Proof.Scheduler.Waits

/-!
# The fires of a cron schedule

A wait that begins before an occurrence ends at the first of them, or later
(`CronInv.slept`), and the waits come one after another, so no occurrence is for
two of them (`exists_own`). A wait that begins after the last occurrence takes
no time.
-/

namespace WalaStack.Proof.Scheduler

open WalaStack.Rust WalaStack.Impl.Runtime WalaStack.Transition WalaStack.Spec.Scheduler

variable {cfg : Scheduled} {clock : Clock} {a : ScheduleAction} {w w' : Timed} {occ : DateTime → Prop}
  {schedule : CronSchedule}

/-- The waits of the fires come one after another, and each is over at the
occurrence that it is for, if any. -/
structure CronInv (cfg : Scheduled) (schedule : CronSchedule) (w : Timed) : Prop where
  waits : Waits cfg w
  since_le : w.since.wall.nanos ≤ w.clock.wall.nanos
  ended : ∀ f ∈ w.fires, f.at_.wall.nanos ≤ w.since.wall.nanos
  apart : w.fires.Pairwise fun f f' => f.at_.wall.nanos ≤ f'.since.wall.nanos
  slept : ∀ f ∈ w.fires, ∀ o, schedule.upcoming f.since.wall = some o → o.nanos ≤ f.at_.wall.nanos

theorem cronInv_init (cfg : Scheduled) (schedule : CronSchedule) (clock : Clock) :
    CronInv cfg schedule (.init cfg clock) :=
  ⟨waits_init cfg clock, le_rfl, fun _ hm => absurd hm List.not_mem_nil, List.Pairwise.nil,
    fun _ hm => absurd hm List.not_mem_nil⟩

theorem nextDelay_cron {o : DateTime} (hoc : Occurs occ schedule) (clock : Clock) (h : schedule.upcoming clock.wall = some o) :
    ((schedule.nextDelay clock).nanos : Int) = o.nanos - clock.wall.nanos := by
  have hlt := (hoc.next _ _ h).2.1
  simp only [CronSchedule.nextDelay, h, DateTime.since, if_pos hlt.le, Option.getD_some]
  omega

theorem cronInv_step (hoc : Occurs occ schedule) (htrigger : cfg.trigger = .cron schedule)
    (h : CronInv cfg schedule w) (hs : TimedSteps cfg neverEarly w clock a w') : CronInv cfg schedule w' := by
  have hpace := hs.paced
  simp only [neverEarly, Bool.and_eq_true, decide_eq_true_eq] at hpace
  obtain ⟨⟨-, hwall⟩, hsleep⟩ := hpace
  obtain ⟨hmono, hle⟩ := hs.since_bounds (fun c => c.wall.nanos) h.since_le hwall
  refine ⟨hs.waits h.waits, by rw [hs.clock_eq]; exact hle, ?_, ?_, ?_⟩
  · refine hs.forall_fires.mpr ⟨fun f hm => (h.ended f hm).trans hmono, fun hf => ?_⟩
    rw [hs.since_of_fire hf]
  · rw [hs.fires_eq]
    split
    · refine List.pairwise_append.mpr ⟨h.apart, List.pairwise_singleton _ _, fun f hm f' hm' => ?_⟩
      rw [List.mem_singleton.mp hm']
      exact h.ended f hm
    · exact h.apart
  · refine hs.forall_fires.mpr ⟨h.slept, fun hf o ho => ?_⟩
    obtain ⟨wake, hp, rfl, -⟩ := hs.wake_le hf
    simp only [hp, decide_eq_true_eq] at hsleep
    have hdelay := nextDelay_cron hoc w.since ho
    have hwake := h.waits wake hp
    rw [htrigger] at hwake
    simp only [nextDelay] at hwake
    show o.nanos ≤ clock.wall.nanos
    omega

/-- Fires whose waits began before an occurrence have occurrences of their own. -/
theorem exists_own (hoc : Occurs occ schedule) {fires : List Fire}
    (hapart : fires.Pairwise fun f f' => f.at_.wall.nanos ≤ f'.since.wall.nanos)
    (hslept : ∀ f ∈ fires, ∀ o, schedule.upcoming f.since.wall = some o → o.nanos ≤ f.at_.wall.nanos)
    (hup : ∀ f ∈ fires, HasUpcoming occ f.since.wall) :
    ∃ os : List DateTime, os.Nodup ∧ List.Forall₂ (fun o f => occ o ∧ o ≤ f.at_.wall) os fires ∧
      ∀ o ∈ os, ∃ f ∈ fires, f.since.wall.nanos < o.nanos := by
  induction fires with
  | nil => exact ⟨[], List.nodup_nil, .nil, fun _ hm => absurd hm List.not_mem_nil⟩
  | cons f fires ih =>
    obtain ⟨hf, hapart⟩ := List.pairwise_cons.mp hapart
    obtain ⟨os, hnodup, hforall, hlater⟩ := ih hapart (fun f' hm => hslept f' (List.mem_cons_of_mem _ hm))
      fun f' hm => hup f' (List.mem_cons_of_mem _ hm)
    cases ho : schedule.upcoming f.since.wall with
    | none =>
      obtain ⟨o, hocc, hlt⟩ := hup f List.mem_cons_self
      exact absurd hlt (Int.not_lt.mpr (hoc.last _ ho o hocc))
    | some o =>
      obtain ⟨hocc, hlt, -⟩ := hoc.next _ _ ho
      have hle := hslept f List.mem_cons_self o ho
      refine ⟨o :: os, List.nodup_cons.mpr ⟨fun hm => ?_, hnodup⟩, .cons ⟨hocc, hle⟩ hforall, fun o' hm => ?_⟩
      · obtain ⟨f', hm', hlt'⟩ := hlater o hm
        have hf' := hf f' hm'
        omega
      · rcases List.mem_cons.mp hm with rfl | hm
        · exact ⟨f, List.mem_cons_self, hlt⟩
        · obtain ⟨f', hm', hlt'⟩ := hlater o' hm
          exact ⟨f', List.mem_cons_of_mem _ hm', hlt'⟩

theorem onlyOccurrences_iff (hoc : Occurs occ schedule) (h : CronInv cfg schedule w) :
    OnlyOccurrences occ w.fires ↔ ∀ f ∈ w.fires, HasUpcoming occ f.since.wall := by
  refine ⟨fun ho => ho.never, fun hup => ⟨?_, hup⟩⟩
  obtain ⟨os, hnodup, hforall, -⟩ := exists_own hoc h.apart h.slept hup
  exact ⟨os, hnodup, hforall⟩

/-- A fire keeps the law exactly if its wait began before an occurrence. -/
theorem onlyOccurrences_step (hoc : Occurs occ schedule) (htrigger : cfg.trigger = .cron schedule)
    (h : CronInv cfg schedule w) (ho : OnlyOccurrences occ w.fires) (hs : TimedSteps cfg neverEarly w clock a w') :
    OnlyOccurrences occ w'.fires ↔ WaitsForOccurrence occ w (clock, a) := by
  rw [onlyOccurrences_iff hoc (cronInv_step hoc htrigger h hs), hs.forall_fires, WaitsForOccurrence]
  exact and_iff_right ho.never

/-- A cron schedule fires at its occurrences only, one fire at most for each,
exactly if every fire's wait began before an occurrence. -/
theorem cron_iff (occ : DateTime → Prop) (schedule : CronSchedule) (hoc : Occurs occ schedule) (cfg : Scheduled)
    (htrigger : cfg.trigger = .cron schedule) (clock : Clock) (as : List (Clock × ScheduleAction)) (w : Timed)
    (hrun : exec (Timed.step cfg neverEarly) (.init cfg clock) as = some w) :
    AlongStates (Timed.step cfg neverEarly) (fun w => OnlyOccurrences occ w.fires) (.init cfg clock) as ↔
      AlongSteps (Timed.step cfg neverEarly) (WaitsForOccurrence occ) (.init cfg clock) as := by
  have hinit : CronInv cfg schedule (.init cfg clock) := cronInv_init cfg schedule clock
  refine alongStates_iff_alongSteps (I := CronInv cfg schedule)
    (fun {_ a _} h hs => cronInv_step hoc htrigger h (timedSteps_of_step (a := a.2) hs))
    (fun {_ a _} h ho hs => onlyOccurrences_step hoc htrigger h ho (timedSteps_of_step (a := a.2) hs)) hinit ?_ hrun
  exact (onlyOccurrences_iff hoc hinit).mpr fun f hm => absurd hm List.not_mem_nil

/-! ## Two schedules -/

/-- The schedule of one occurrence. -/
def once (o : DateTime) : CronSchedule := ⟨fun t => if t.nanos < o.nanos then some o else none⟩

theorem occurs_once (o : DateTime) : Occurs (· = o) (once o) where
  next t o' h := by
    simp only [once] at h
    split at h <;> cases h
    rename_i hlt
    exact ⟨rfl, hlt, fun o' ho' _ => by rw [ho']⟩
  last t h o' ho' := by
    subst ho'
    simp only [once] at h
    split at h <;> cases h
    rename_i hlt
    omega

/-- A task at the occurrence. -/
def atEpoch : Scheduled := ⟨1, .cron (once .epoch), ⟨none, none⟩, true⟩

/-- The clocks, a second before the epoch. -/
def beforeEpoch : Clock := ⟨0, ⟨-1000000000, by decide, by decide⟩⟩

/-- The clocks at the epoch. -/
def onEpoch : Clock := ⟨1000000000, .epoch⟩

/-- The fire at the occurrence. -/
theorem cron_once : AlongStates (Timed.step atEpoch neverEarly) (fun w => OnlyOccurrences (· = .epoch) w.fires)
    (.init atEpoch beforeEpoch) [(onEpoch, .slept), (onEpoch, .resolved (.returned (.ok ())) 0)] := by
  refine (cron_iff _ (once .epoch) (occurs_once .epoch) atEpoch rfl beforeEpoch _ _ rfl).mpr ?_
  refine (alongSteps_cons_of rfl _).mpr ⟨fun _ => ⟨.epoch, rfl, by decide⟩, ?_⟩
  exact (alongSteps_cons_of rfl _).mpr ⟨fun hc => Bool.noConfusion hc, trivial⟩

/-- A schedule with no occurrence fires at once. -/
theorem not_cron_never : ¬ ∀ (occ : DateTime → Prop) (schedule : CronSchedule), Occurs occ schedule →
    ∀ cfg : Scheduled, cfg.trigger = .cron schedule → ∀ clock as w,
    exec (Timed.step cfg neverEarly) (.init cfg clock) as = some w → OnlyOccurrences occ w.fires := by
  intro h
  have hoc : Occurs (fun _ => False) ⟨fun _ => none⟩ := ⟨fun _ _ hs => (by cases hs), fun _ _ _ ho => ho.elim⟩
  have honly := h _ _ hoc ⟨1, .cron ⟨fun _ => none⟩, ⟨none, none⟩, true⟩ rfl onEpoch [(onEpoch, .slept)] _ rfl
  obtain ⟨o, ho, -⟩ := honly.never ⟨none, onEpoch, onEpoch⟩ List.mem_cons_self
  exact ho

end WalaStack.Proof.Scheduler
