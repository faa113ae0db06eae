import Mathlib.Algebra.Order.Ring.Nat

/-!
# Rust's numbers and durations

Machine integers are natural numbers here: a counter is a `Nat` that the
source's own operation keeps in range (`u32::saturating_add`), a parameter of
a fixed-width type carries its bound (`U32`), and an arithmetic that wraps
says so (`% 2 ^ 64`).

`std::time::Duration` is a number of nanoseconds, at most `u64::MAX` seconds
and 999 999 999 ns. `saturating_add` and `saturating_mul` are exact up to
that bound, as the carries between their seconds and nanoseconds are.
-/

namespace WalaStack.Rust

/-- `u32::MAX` -/
abbrev u32Max : Nat := 4294967295

/-- `u64::MAX` -/
abbrev u64Max : Nat := 18446744073709551615

/-- `i64::MAX` -/
abbrev i64Max : Nat := 9223372036854775807

/-- A `u32` that the program takes as a parameter. -/
@[ext] structure U32 where
  val : Nat
  le_max : val ≤ u32Max
deriving DecidableEq, Repr

/-- `u32::MAX`, as a parameter. -/
def U32.max : U32 := ⟨u32Max, Nat.le_refl _⟩

/-- `u32::MIN` -/
def U32.zero : U32 := ⟨0, Nat.zero_le _⟩

/-- `n as u32`, for an integer of more bits. -/
def U32.cast (n : Nat) : U32 := ⟨n % 2 ^ 32, Nat.le_of_lt_succ (Nat.mod_lt n (by decide))⟩

/-- `n as u32`, for an `i64`. -/
def U32.ofI64 (n : Int) : U32 := .cast (n % 2 ^ 32).toNat

/-- A `u64` that the program takes as a parameter. -/
@[ext] structure U64 where
  val : Nat
  le_max : val ≤ u64Max
deriving DecidableEq, Repr

/-- `n as u64`, for an integer of more bits. -/
def U64.cast (n : Nat) : U64 := ⟨n % 2 ^ 64, Nat.le_of_lt_succ (Nat.mod_lt n (by decide))⟩

/-- Literals of the two types. -/
instance (n : Nat) : OfNat U32 n := ⟨.cast n⟩

instance (n : Nat) : OfNat U64 n := ⟨.cast n⟩

/-- `u64::wrapping_add(1)` -/
def U64.wrappingSucc (a : U64) : U64 := .cast (a.val + 1)

/-- `a.saturating_add(b)` on `u32`. -/
def saturatingAdd (a b : Nat) : Nat := min (a + b) u32Max

theorem saturatingAdd_le (a b : Nat) : saturatingAdd a b ≤ u32Max := Nat.min_le_right _ _

/-- `a.saturating_add(1)` -/
def U32.saturatingSucc (a : U32) : U32 := ⟨saturatingAdd a.val 1, saturatingAdd_le _ _⟩

theorem U32.cast_of_le {n : Nat} (h : n ≤ u32Max) : (U32.cast n).val = n :=
  Nat.mod_eq_of_lt (Nat.lt_succ_of_le h)

@[simp] theorem U32.cast_val (a : U32) : U32.cast a.val = a :=
  U32.ext (U32.cast_of_le a.le_max)

@[simp] theorem U32.ofI64_natCast (n : Nat) : U32.ofI64 n = U32.cast n := by
  have hn : ((n : Int) % 2 ^ 32).toNat = n % 2 ^ 32 := by omega
  apply U32.ext
  show ((n : Int) % 2 ^ 32).toNat % 2 ^ 32 = n % 2 ^ 32
  rw [hn, Nat.mod_mod]

theorem saturatingAdd_one_of_lt {a : Nat} (h : a < u32Max) : saturatingAdd a 1 = a + 1 :=
  Nat.min_eq_left h

/-- `std::time::Duration`. -/
@[ext] structure Duration where
  nanos : Nat
  le_max : nanos ≤ u64Max * 1000000000 + 999999999
deriving DecidableEq, Repr

namespace Duration

/-- `Duration::MAX` -/
def max : Duration := ⟨u64Max * 1000000000 + 999999999, Nat.le_refl _⟩

/-- `Duration::ZERO` -/
def zero : Duration := ⟨0, Nat.zero_le _⟩

/-- `Duration::from_secs` -/
def fromSecs (secs : U64) : Duration :=
  ⟨secs.val * 1000000000, Nat.le_trans (Nat.mul_le_mul_right _ secs.le_max) (Nat.le_add_right _ _)⟩

/-- `Duration::from_nanos` -/
def fromNanos (nanos : Nat) (h : nanos ≤ u64Max := by decide) : Duration :=
  ⟨nanos, by omega⟩

/-- `Duration::saturating_add` -/
def saturatingAdd (d e : Duration) : Duration := ⟨min (d.nanos + e.nanos) max.nanos, Nat.min_le_right _ _⟩

/-- `Duration::saturating_mul` -/
def saturatingMul (d : Duration) (n : Nat) : Duration := ⟨min (d.nanos * n) max.nanos, Nat.min_le_right _ _⟩

/-- `Ord::min` on durations. -/
def min (d e : Duration) : Duration := if d.nanos ≤ e.nanos then d else e

/-- `Duration::checked_sub`, of a number of nanoseconds. -/
def checkedSub (d : Duration) (nanos : Nat) : Option Duration :=
  if nanos ≤ d.nanos then some ⟨d.nanos - nanos, Nat.le_trans (Nat.sub_le _ _) d.le_max⟩ else none

@[simp] theorem saturatingAdd_nanos (d e : Duration) :
    (d.saturatingAdd e).nanos = Min.min (d.nanos + e.nanos) max.nanos := rfl

@[simp] theorem saturatingMul_nanos (d : Duration) (n : Nat) :
    (d.saturatingMul n).nanos = Min.min (d.nanos * n) max.nanos := rfl

theorem min_nanos (d e : Duration) : (d.min e).nanos = Min.min d.nanos e.nanos := by
  rw [Duration.min]
  split <;> omega

/-- Saturating in the product and again in the sum is saturating once. -/
theorem saturatingAdd_saturatingMul_nanos (d e : Duration) (n : Nat) :
    (d.saturatingAdd (e.saturatingMul n)).nanos = Min.min (d.nanos + e.nanos * n) max.nanos := by
  simp only [saturatingAdd_nanos, saturatingMul_nanos]
  omega

/-! ## Text -/

/-- The digits of `frac / 10 ^ width` after the point, without trailing zeros. -/
def decimals : Nat → Nat → String
  | 0, _ => ""
  | width + 1, frac => if frac = 0 then "" else toString (frac / 10 ^ width) ++ decimals width (frac % 10 ^ width)

def fmtDecimal (int frac width : Nat) : String :=
  if frac = 0 then toString int else toString int ++ "." ++ decimals width frac

/-- The `Debug` text of a `Duration`. -/
def debug (d : Duration) : String :=
  let secs := d.nanos / 1000000000
  let sub := d.nanos % 1000000000
  if 0 < secs then fmtDecimal secs sub 9 ++ "s"
  else if 1000000 ≤ sub then fmtDecimal (sub / 1000000) (sub % 1000000) 6 ++ "ms"
  else if 1000 ≤ sub then fmtDecimal (sub / 1000) (sub % 1000) 3 ++ "µs"
  else toString sub ++ "ns"

example : (fromNanos 2050000000).debug = "2.05s" := by decide

/-- `Duration::as_millis` -/
def asMillis (d : Duration) : Nat := d.nanos / 1000000

end Duration

end WalaStack.Rust
