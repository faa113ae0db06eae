import Mathlib.Tactic.NormNum
import Mathlib.Tactic.Positivity
import WalaStack.Framework.Powers
import WalaStack.Spec.Backoff

/-!
# The exponential delay

`retry_index as i32` is negative from `2 ^ 31` on, where the factor then
divides (`delayFor_of_le`). Below that the delay is the documented one
(`delayFor_of_lt`), and the clamps on the way do not show, as `max` is within
them (`nanos_clamped`).
-/

namespace WalaStack.Proof.Backoff

open WalaStack.Rust WalaStack.Impl.Runtime WalaStack.Spec.Backoff WalaStack.Powers

variable {base max : Duration} {factor : Rat} {ns : Nat} {i : U32}

/-! ## The clamps -/

theorem u64Max_lt_f64Max : (u64Max : Rat) < f64Max := by
  have hpow : (2 : Rat) ^ 64 ≤ 2 ^ 971 := pow_le_pow_right₀ (by norm_num) (by norm_num)
  calc (u64Max : Rat) < 2 ^ 64 := by norm_num
    _ ≤ 2 ^ 971 := hpow
    _ ≤ (2 ^ 53 - 1) * 2 ^ 971 := le_mul_of_one_le_left (by positivity) (by norm_num)

/-- Rounding, the saturating cast and the cap are the cap alone; it is also
what stands for an infinity. -/
theorem nanos_clamped (hmax : max.nanos ≤ u64Max) (x : Rat) :
    (if f64Max < x then max else (asNanos x).min max).nanos = Min.min ⌊x⌋₊ max.nanos := by
  split
  · rename_i hx
    have hle : u64Max ≤ ⌊x⌋₊ := Nat.le_floor (u64Max_lt_f64Max.trans hx).le
    omega
  · rw [Duration.min_nanos]
    show Min.min (Min.min ⌊x⌋.toNat u64Max) max.nanos = _
    rw [Int.floor_toNat]
    omega

/-! ## The exponent -/

theorem delayFor_exponential (hf : 1 ≤ factor) (ns i : Nat) :
    (Backoff.exponential base factor max).delayFor ns i =
      if f64Max < base.nanos * factor ^ asI32 i then max else (asNanos (base.nanos * factor ^ asI32 i)).min max := by
  have hpos : 0 < factor := lt_of_lt_of_le zero_lt_one hf
  have hpowi : powi factor (asI32 i) = some (factor ^ asI32 i) := by
    rw [powi]
    split
    · rename_i he
      rw [← zpow_natCast, Int.toNat_of_nonneg he]
    · rename_i he
      rw [if_neg hpos.ne', ← zpow_natCast, Int.toNat_of_nonneg (by omega), zpow_neg, inv_inv]
  show exponentialDelay base factor i max = _
  rw [exponentialDelay]
  simp only [max_eq_left hpos.le, hpowi]

/-- As long as the index is an `i32`, the delay is the documented one. -/
theorem delayFor_of_lt (hf : 1 ≤ factor) (hmax : max.nanos ≤ u64Max) {i : Nat} (hi : i < 2 ^ 31) :
    ((Backoff.exponential base factor max).delayFor ns i).nanos =
      documentedDelay base factor max i := by
  rw [delayFor_exponential hf, nanos_clamped hmax, asI32, if_pos hi, zpow_natCast]
  rfl

/-- From there on the factor divides. -/
theorem delayFor_of_le (hf : 1 ≤ factor) (hmax : max.nanos ≤ u64Max) (hi : 2 ^ 31 ≤ i.val) :
    ((Backoff.exponential base factor max).delayFor ns i.val).nanos =
      Min.min ⌊base.nanos / factor ^ (2 ^ 32 - i.val)⌋₊ max.nanos := by
  have hle : i.val ≤ 4294967295 := i.le_max
  have hexp : (i.val : Int) - 2 ^ 32 = -((2 ^ 32 - i.val : Nat) : Int) := by omega
  rw [delayFor_exponential hf, nanos_clamped hmax, asI32, if_neg (Nat.not_lt.mpr hi), hexp, zpow_neg, zpow_natCast,
    div_eq_mul_inv]

/-! ## The formula -/

theorem delayFor_le_max (hf : 1 ≤ factor) (ns i : Nat) :
    ((Backoff.exponential base factor max).delayFor ns i).nanos ≤ max.nanos := by
  rw [delayFor_exponential hf]
  split
  · exact Nat.le_refl _
  · rw [Duration.min_nanos]
    exact Nat.min_le_right _ _

/-- The delay is nowhere above the documented one. -/
theorem delayFor_le (hf : 1 ≤ factor) (hmax : max.nanos ≤ u64Max) (ns : Nat) (i : U32) :
    ((Backoff.exponential base factor max).delayFor ns i.val).nanos ≤
      documentedDelay base factor max i.val := by
  rcases Nat.lt_or_ge i.val (2 ^ 31) with hi | hi
  · exact (delayFor_of_lt hf hmax hi).le
  · rw [delayFor_of_le hf hmax hi]
    exact min_le_min_right _ (floor_div_pow_le_floor_mul_pow hf _ _ _)

theorem documentedDelay_mono (hf : 1 ≤ factor) {i j : Nat} (h : j ≤ i) :
    documentedDelay base factor max j ≤ documentedDelay base factor max i := min_floor_mul_pow_mono hf h

/-- So the delay of a retry is not below an earlier one if it is the documented
one. -/
theorem followsFormula_iff_eq (hf : 1 ≤ factor) (hmax : max.nanos ≤ u64Max) (i : U32) :
    FollowsFormula base factor max i ↔ ∀ ns, ((Backoff.exponential base factor max).delayFor ns i.val).nanos =
      documentedDelay base factor max i.val := by
  constructor
  · exact FollowsFormula.formula
  · intro h
    refine ⟨h, fun ns => delayFor_le_max hf ns _, fun ns ns' j hj => ?_⟩
    rw [h ns]
    exact (delayFor_le hf hmax ns' j).trans (documentedDelay_mono hf hj)

/-- The delay of a retry follows the formula exactly if its index is an `i32`,
or the base is zero, or the factor is one, or the base is so large that
dividing it leaves the cap. -/
theorem followsFormula_iff (base : Duration) (factor : Rat) (max : Duration) (i : U32) (hf : 1 ≤ factor)
    (hmax : max.nanos ≤ u64Max) :
    FollowsFormula base factor max i ↔
      i.val < 2 ^ 31 ∨ base.nanos = 0 ∨ factor = 1 ∨ max.nanos * factor ^ (2 ^ 32 - i.val) ≤ base.nanos := by
  rw [followsFormula_iff_eq hf hmax]
  rcases Nat.lt_or_ge i.val (2 ^ 31) with hi | hi
  · exact iff_of_true (fun ns => delayFor_of_lt hf hmax hi) (.inl hi)
  · have hle : i.val ≤ 4294967295 := i.le_max
    rw [or_iff_right (Nat.not_lt.mpr hi), ← min_floor_div_pow_eq_iff hf (by omega : 0 < 2 ^ 32 - i.val)]
    constructor
    · intro h
      rw [← delayFor_of_le hf hmax hi, h 0]
      rfl
    · intro h ns
      rw [delayFor_of_le hf hmax hi, h]
      rfl

/-- A second, doubled for each retry up to a minute. -/
theorem followsFormula_doubled : FollowsFormula (Duration.fromSecs 1) 2 (Duration.fromSecs 60) 5 :=
  (followsFormula_iff _ _ _ _ (by norm_num) (by decide)).mpr (.inl (by decide))

/-- From the index `2 ^ 31` on, the delay is below the base. -/
theorem delayFor_lt_base (hf : 1 < factor) (hmax : max.nanos ≤ u64Max) (hb : 0 < base.nanos) (hi : 2 ^ 31 ≤ i.val) :
    ((Backoff.exponential base factor max).delayFor ns i.val).nanos < base.nanos := by
  have hle : i.val ≤ 4294967295 := i.le_max
  rw [delayFor_of_le hf.le hmax hi]
  exact Nat.lt_of_le_of_lt (Nat.min_le_left _ _) (floor_div_pow_lt hf hb (by omega))

/-- The retry of index `2 ^ 31` does not wait a minute. -/
theorem not_followsFormula_wrapped : ¬ ∀ (base : Duration) (factor : Rat) (max : Duration) (i : U32), 1 ≤ factor →
    max.nanos ≤ u64Max → FollowsFormula base factor max i := by
  intro h
  have hformula := (h (Duration.fromSecs 1) 2 (Duration.fromSecs 60) ⟨2 ^ 31, by decide⟩ (by norm_num) (by decide)).formula 0
  have hlt : ((Backoff.exponential (Duration.fromSecs 1) 2 (Duration.fromSecs 60)).delayFor 0 (2 ^ 31)).nanos <
      (Duration.fromSecs 1).nanos :=
    delayFor_lt_base (i := ⟨2 ^ 31, by decide⟩) (by norm_num) (by decide) (by decide) (Nat.le_refl _)
  rw [hformula] at hlt
  have hbase := le_floor_mul_pow (one_le_two : (1 : Rat) ≤ 2) (Duration.fromSecs 1).nanos (2 ^ 31)
  have hcap : (Duration.fromSecs 1).nanos ≤ (Duration.fromSecs 60).nanos := by decide
  exact absurd hlt (Nat.not_lt.mpr (Nat.le_min.mpr ⟨hbase, hcap⟩))

end WalaStack.Proof.Backoff
