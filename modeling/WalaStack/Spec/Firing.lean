import WalaStack.Spec.FireTrace

/-!
# When a schedule fires

`Timed` keeps the clocks of a schedule's fires: when the fire before began, when
the wait for this one began, and when it fired. A `Pace` is what is assumed of
the clocks and of `sleep`. `OnlyOccurrences` is the law of a cron schedule, and
`Aligned` that of a fixed rate.
-/

namespace WalaStack.Spec.Scheduler

open WalaStack.Rust WalaStack.Impl.Runtime WalaStack.Transition

/-! ## Timed runs -/

structure Fire where
  /-- The beginning of the fire before. -/
  last : Option Nat
  /-- The clocks when the wait began, at the end of the fire before. -/
  since : Clock
  at_ : Clock

/-- A schedule, with the clocks of its last step and of the last change of its
phase, and its fires. -/
structure Timed where
  schedule : Schedule
  clock : Clock
  since : Clock
  fires : List Fire

abbrev Pace := Timed → Clock → ScheduleAction → Bool

namespace Timed

def init (cfg : Scheduled) (clock : Clock) : Timed := ⟨.init cfg clock, clock, clock, []⟩

def step (cfg : Scheduled) (pace : Pace) (s : Timed) (a : Clock × ScheduleAction) : Option Timed :=
  if pace s a.1 a.2 then
    (s.schedule.step cfg a.1 a.2).map fun s' => {
      schedule := s'
      clock := a.1
      since := if s'.phase = s.schedule.phase then s.since else a.1
      fires := if starts s.schedule a.2 then s.fires ++ [⟨s.schedule.lastFire, s.since, a.1⟩] else s.fires }
  else none

end Timed

/-! ## Cron -/

/-- `upcoming` yields the occurrences after an instant, the first one first. -/
structure Occurs (occ : DateTime → Prop) (schedule : CronSchedule) : Prop where
  next : ∀ t o, schedule.upcoming t = some o → occ o ∧ t.nanos < o.nanos ∧
    ∀ o', occ o' → t.nanos < o'.nanos → o.nanos ≤ o'.nanos
  last : ∀ t, schedule.upcoming t = none → ∀ o, occ o → o.nanos ≤ t.nanos

/-- An occurrence comes after the instant. -/
def HasUpcoming (occ : DateTime → Prop) (t : DateTime) : Prop := ∃ o, occ o ∧ t.nanos < o.nanos

/-- The clocks do not go back, and a sleep does not end before its delay has
passed on the wall clock. -/
def neverEarly : Pace := fun s clock a =>
  decide (s.clock.now ≤ clock.now) && decide (s.clock.wall ≤ clock.wall) &&
    match s.schedule.phase, a with
    | .waiting wake, .slept => decide (s.since.wall.nanos + (wake - s.since.now : Nat) ≤ clock.wall.nanos)
    | _, _ => true

/-- Each fire comes at or after an occurrence of its own, and none after a wait
that began with no occurrence to come. -/
structure OnlyOccurrences (occ : DateTime → Prop) (fires : List Fire) : Prop where
  own : ∃ os : List DateTime, os.Nodup ∧ List.Forall₂ (fun o f => occ o ∧ o ≤ f.at_.wall) os fires
  never : ∀ f ∈ fires, HasUpcoming occ f.since.wall

/-- A fire's wait began before an occurrence. -/
def WaitsForOccurrence (occ : DateTime → Prop) (s : Timed) (a : Clock × ScheduleAction) : Prop :=
  starts s.schedule a.2 = true → HasUpcoming occ s.since.wall

/-! ## Fixed rate -/

/-- A sleep ends exactly after its delay. -/
def exactly : Pace := fun s clock a =>
  decide (s.clock.now ≤ clock.now) &&
    match s.schedule.phase, a with
    | .waiting wake, .slept | .backingOff _ _ wake, .slept => decide (clock.now = wake)
    | _, _ => true

/-- The fire follows a task at once that was still running when it was due. -/
def CatchesUp (t₀ period : Nat) (f : Fire) : Prop :=
  f.at_.now = f.since.now ∧
    ∃ last k, f.last = some last ∧ last < t₀ + k * period ∧ t₀ + k * period < f.since.now

/-- The fire is at a multiple of the period, or catches up. -/
def Aligned (t₀ period : Nat) (f : Fire) : Prop :=
  (∃ k, 1 ≤ k ∧ f.at_.now = t₀ + k * period) ∨ CatchesUp t₀ period f

/-- A fire after a task shorter than the period follows a fire at a multiple of
the period. -/
def FollowsAligned (t₀ period : Nat) (s : Timed) (a : Clock × ScheduleAction) : Prop :=
  starts s.schedule a.2 = true → ∀ last, s.schedule.lastFire = some last → s.since.now - last < period →
    period ∣ last - t₀

end WalaStack.Spec.Scheduler
