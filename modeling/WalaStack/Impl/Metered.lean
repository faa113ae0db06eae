import WalaStack.Impl.ObservabilityLoop

/-!
# Schedules and their meter

The schedules of a scheduler (`walastack-runtime/src/scheduler.rs`) and the
`ObservabilityService` that counts their events, on one event bus: what a
schedule publishes in a step goes to the channels of the loop. Other parties
publish the events of services and of the runtime.
-/

namespace WalaStack.Impl.Observability

open WalaStack.Impl.Runtime

/-- The events that a history publishes. -/
def publishedOf : List TaskEntry → List TaskEvent :=
  List.filterMap fun
    | .published e => some e
    | .called _ _ => none

structure Metered where
  schedules : List (Scheduled × Schedule)
  loop : ObservabilityLoop

inductive MeteredAction
  /-- `Scheduler::schedule` -/
  | schedule (cfg : Scheduled) (clock : Clock)
  /-- A step of a schedule, with the clocks that it reads. -/
  | task (i : Nat) (clock : Clock) (a : ScheduleAction)
  /-- A fire, and a cancellation in the midst of it. -/
  | interrupted (i : Nat) (clock : Clock)
  /-- Another party publishes an event. -/
  | other (e : Observed)
  /-- The loop takes a branch. -/
  | recv (k : Channel)
  | shutdown

namespace Metered

def init : Metered := ⟨[], .init⟩

/-- A schedule goes on, and what it has published is sent. -/
def advance (m : Metered) (i : Nat) (p : Scheduled × Schedule) (s' : Schedule) : Metered where
  schedules := m.schedules.set i (p.1, s')
  loop := (publishedOf (s'.history.drop p.2.history.length)).foldl (fun l e => l.publish (.task e)) m.loop

def step (size : Nat) (m : Metered) : MeteredAction → Option Metered
  | .schedule cfg clock => some { m with schedules := m.schedules ++ [(cfg, .init cfg clock)] }
  | .task i clock a =>
    match m.schedules[i]? with
    | some p => (p.2.step p.1 clock a).map (m.advance i p)
    | none => none
  | .interrupted i clock =>
    match m.schedules[i]? with
    | some p => (p.2.interrupt p.1 clock).map (m.advance i p)
    | none => none
  | .other e =>
    match e with
    | .task _ => none
    | _ => some { m with loop := m.loop.publish e }
  | .recv k => (m.loop.step size (.recv k)).map fun l => { m with loop := l }
  | .shutdown => (m.loop.step size .shutdown).map fun l => { m with loop := l }

end Metered

end WalaStack.Impl.Observability
