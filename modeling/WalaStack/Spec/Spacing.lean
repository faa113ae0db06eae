import Mathlib.Data.List.Chain
import Mathlib.Data.List.ModifyLast
import WalaStack.Spec.FireTrace

/-!
# The spacing of a schedule's calls

A scheduled function is called again only after the call before has ended, and
its delay with it: the backoff between two attempts of a fire, and what the
trigger asks for between two fires. `Calling` keeps of a schedule when its calls
began and ended, and `Spaced` is that law.
-/

namespace WalaStack.Spec.Scheduler

open WalaStack.Rust WalaStack.Impl.Runtime

/-- The time at which a call ended, and its subsecond nanoseconds. -/
structure CallEnd where
  time : Nat
  subsecNanos : Nat
deriving DecidableEq, Repr

structure TaskCall where
  attempt : Nat
  start : Nat
  ended : Option CallEnd
deriving DecidableEq, Repr

/-- A schedule with the time of its last step, and its calls. -/
structure Calling where
  schedule : Schedule
  now : Nat
  calls : List TaskCall
deriving DecidableEq

/-- The clocks of a step. -/
def clockOf : FiringAction → Clock
  | .task clock _ => clock
  | .interrupted clock => clock

/-- The calls of a part of a history. -/
def calledIn : List TaskEntry → List TaskCall :=
  List.filterMap fun
    | .called attempt time => some ⟨attempt, time, none⟩
    | .published _ => none

/-- The last call is the one that ends. -/
def endCall (calls : List TaskCall) : FiringAction → List TaskCall
  | .task clock (.resolved _ subsecNanos) =>
    calls.modifyLast fun c => { c with ended := some ⟨clock.now, subsecNanos⟩ }
  | _ => calls

/-- A step of the schedule alone. -/
def firingStep (cfg : Scheduled) (s : Schedule) : FiringAction → Option Schedule
  | .task clock a => s.step cfg clock a
  | .interrupted clock => s.interrupt cfg clock

namespace Calling

def init (cfg : Scheduled) (clock : Clock) : Calling := ⟨.init cfg clock, clock.now, []⟩

/-- The clock does not go back. -/
def step (cfg : Scheduled) (s : Calling) (a : FiringAction) : Option Calling :=
  if s.now ≤ (clockOf a).now then
    (firingStep cfg s.schedule a).map fun s' => {
      schedule := s'
      now := (clockOf a).now
      calls := endCall s.calls a ++ calledIn (s'.history.drop s.schedule.history.length) }
  else none

end Calling

end WalaStack.Spec.Scheduler
