import WalaStack.Rust.Num

/-!
# chrono's instants

The part of `chrono` that the jobs crate computes with, by its documented
ranges: a `DateTime<Utc>` is a number of nanoseconds since the Unix epoch
between `DateTime::<Utc>::MIN_UTC` and `MAX_UTC`; a `chrono::Duration` is at
most `i64::MAX` milliseconds; adding one to a `DateTime` panics beyond
`MAX_UTC`. Leap seconds, which `Utc::now` does not report, are left out.
-/

namespace WalaStack.Rust

/-- `DateTime::<Utc>::MIN_UTC`: the first nanosecond of the year -262143. -/
abbrev minUtcNanos : Int := -8334601228800 * 1000000000

/-- `DateTime::<Utc>::MAX_UTC`: the last nanosecond of the year 262142. -/
abbrev maxUtcNanos : Int := 8210266876799 * 1000000000 + 999999999

/-- `chrono::DateTime<Utc>` -/
@[ext] structure DateTime where
  nanos : Int
  min_le : minUtcNanos ≤ nanos
  le_max : nanos ≤ maxUtcNanos
deriving DecidableEq, Repr

namespace DateTime

instance : LE DateTime := ⟨fun a b => a.nanos ≤ b.nanos⟩

instance (a b : DateTime) : Decidable (a ≤ b) := inferInstanceAs (Decidable (a.nanos ≤ b.nanos))

/-- `DateTime::UNIX_EPOCH` -/
def epoch : DateTime := ⟨0, by decide, by decide⟩

end DateTime

/-- `std::time::SystemTime`: a signed 64-bit number of seconds with its
nanoseconds. -/
@[ext] structure SystemTime where
  nanos : Int
  min_le : -(i64Max + 1) * 1000000000 ≤ nanos
  le_max : nanos ≤ i64Max * 1000000000 + 999999999
deriving DecidableEq, Repr

def DateTime.toSystemTime (t : DateTime) : SystemTime :=
  ⟨t.nanos, le_trans (by decide) t.min_le, le_trans t.le_max (by decide)⟩

/-- `self.duration_since(earlier)`: `none` is its `SystemTimeError`. -/
def SystemTime.durationSince (t earlier : SystemTime) : Option Duration :=
  if earlier.nanos ≤ t.nanos then
    some ⟨(t.nanos - earlier.nanos).toNat, by
      have hmax : ((u64Max * 1000000000 + 999999999 : Nat) : Int) =
        i64Max * 1000000000 + 999999999 - -(i64Max + 1) * 1000000000 := rfl
      have hle := Int.sub_le_sub t.le_max earlier.min_le
      omega⟩
  else none

/-- `(self - earlier).to_std().ok()`: `none` where the difference is negative. -/
def DateTime.since (t earlier : DateTime) : Option Duration :=
  if earlier.nanos ≤ t.nanos then
    some ⟨(t.nanos - earlier.nanos).toNat, by
      have hmax : maxUtcNanos - minUtcNanos ≤ ((u64Max * 1000000000 + 999999999 : Nat) : Int) := by decide
      have hle := Int.sub_le_sub t.le_max earlier.min_le
      omega⟩
  else none

/-- `chrono::Duration::MAX`: `i64::MAX` milliseconds, in nanoseconds. -/
abbrev maxDeltaNanos : Nat := i64Max * 1000000

/-- A nonnegative `chrono::Duration` (`TimeDelta`). -/
@[ext] structure TimeDelta where
  nanos : Nat
  le_max : nanos ≤ maxDeltaNanos
deriving DecidableEq, Repr

namespace TimeDelta

/-- `chrono::Duration::seconds(1)` -/
def oneSecond : TimeDelta := ⟨1000000000, by decide⟩

/-- `chrono::Duration::from_std`: `none` is its `OutOfRangeError`. -/
def fromStd (d : Duration) : Option TimeDelta :=
  if h : d.nanos ≤ maxDeltaNanos then some ⟨d.nanos, h⟩ else none

end TimeDelta

/-- `DateTime<Utc> + chrono::Duration`: `none` where the source panics with
"`DateTime + TimeDelta` overflowed". -/
def DateTime.add (t : DateTime) (d : TimeDelta) : Option DateTime :=
  if h : t.nanos + d.nanos ≤ maxUtcNanos then
    some ⟨t.nanos + d.nanos, by have := t.min_le; omega, h⟩
  else none

theorem DateTime.add_eq_some {t u : DateTime} {d : TimeDelta} :
    t.add d = some u ↔ u.nanos = t.nanos + d.nanos := by
  unfold DateTime.add
  split
  · rw [Option.some.injEq, DateTime.ext_iff, eq_comm]
  · rename_i h
    refine ⟨fun e => (by cases e), fun e => absurd (e ▸ u.le_max) h⟩

end WalaStack.Rust
