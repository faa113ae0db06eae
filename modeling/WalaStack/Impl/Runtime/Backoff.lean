import WalaStack.Rust.Num
import Mathlib.Data.Rat.Floor

/-!
# Backoff strategies

`Backoff` and `Backoff::delay_for` of `walastack-runtime/src/scheduler.rs`.

The `f64` of the exponential variants is exact rational arithmetic: no
rounding, with the products beyond the largest finite `f64` standing for its
infinity. A power alone has no such bound: where `powi` overflows and the base
is zero, the product is no number in the source, which returns `max`, and zero
here. The jitter is seeded from the system clock's subsecond nanoseconds, which
`delayFor` takes as an argument.
-/

namespace WalaStack.Impl.Runtime

open WalaStack.Rust

/-- Backoff strategy applied between retry attempts. -/
inductive Backoff
  /-- `base + step * retry_index` -/
  | linear (base step : Duration)
  /-- `min(base * factor^retry_index, max)` -/
  | exponential (base : Duration) (factor : Rat) (max : Duration)
  /-- Exponential plus a random jitter fraction in `[0, jitter)`. -/
  | exponentialWithJitter (base : Duration) (factor : Rat) (max : Duration) (jitter : Rat)
deriving Repr

/-- `retry_index as i32` -/
def asI32 (n : Nat) : Int := if n < 2 ^ 31 then n else (n : Int) - 2 ^ 32

/-- `f64::MAX` -/
def f64Max : Rat := (2 ^ 53 - 1) * 2 ^ 971

/-- `x.powi(e)`: `none` is an infinity. -/
def powi (x : Rat) (e : Int) : Option Rat :=
  if 0 ≤ e then some (x ^ e.toNat) else if x = 0 then none else some (x ^ (-e).toNat)⁻¹

/-- `x.min(u64::MAX as f64) as u64`, for `0 ≤ x`: the bound is `2 ^ 64` as an
`f64`, and the cast saturates. -/
def asNanos (x : Rat) : Duration :=
  Duration.fromNanos (min ⌊x⌋.toNat u64Max) (Nat.min_le_right _ _)

def exponentialDelay (base : Duration) (factor : Rat) (retryIndex : Nat) (max : Duration) : Duration :=
  let factor := Max.max factor 0
  match powi factor (asI32 retryIndex) with
  | none => max
  | some p =>
    let computed := base.nanos * p
    if f64Max < computed then max else (asNanos computed).min max

/-- The jitter fraction in `[0, 1)`, from the subsecond nanoseconds of the
system time. -/
def jitterFraction (subsecNanos : Nat) : Rat := (subsecNanos % 1000000 : Nat) / 1000000

def applyJitter (subsecNanos : Nat) (base : Duration) (jitter : Rat) : Duration :=
  let jitter := Max.max 0 (Min.min jitter 1)
  if jitter = 0 then base
  else asNanos (base.nanos * (1 + jitterFraction subsecNanos * jitter))

/-- The delay before the `(retryIndex + 1)`th retry: `0` gives the delay
before the second attempt. -/
def Backoff.delayFor (subsecNanos : Nat) (retryIndex : Nat) : Backoff → Duration
  | .linear base step => base.saturatingAdd (step.saturatingMul retryIndex)
  | .exponential base factor max => exponentialDelay base factor retryIndex max
  | .exponentialWithJitter base factor max jitter =>
    applyJitter subsecNanos (exponentialDelay base factor retryIndex max) jitter

@[simp] theorem delayFor_linear (subsecNanos i : Nat) (base step : Duration) :
    ((Backoff.linear base step).delayFor subsecNanos i).nanos =
      min (base.nanos + step.nanos * i) Duration.max.nanos :=
  Duration.saturatingAdd_saturatingMul_nanos base step i

end WalaStack.Impl.Runtime
