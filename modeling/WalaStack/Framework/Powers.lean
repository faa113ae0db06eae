import Mathlib.Algebra.Order.Field.Basic
import Mathlib.Algebra.Order.Floor.Semiring

/-!
# Capped powers

`min ⌊b * f ^ i⌋₊ cap`, for whole `b` and `cap` and a factor `f` of at least
one: a power that is rounded down and capped. It grows with its exponent
(`min_floor_mul_pow_mono`). With a power that divides instead, it is another
number, save where the two have nothing to differ in
(`min_floor_div_pow_eq_iff`).
-/

namespace WalaStack.Powers

variable {K : Type*} [Field K] [LinearOrder K] [IsStrictOrderedRing K] [FloorSemiring K]
variable {f : K} {b cap i j k : ℕ}

theorem le_mul_pow (hf : 1 ≤ f) (b i : ℕ) : (b : K) ≤ b * f ^ i :=
  le_mul_of_one_le_right (Nat.cast_nonneg b) (one_le_pow₀ hf)

theorem min_floor_mul_pow_mono (hf : 1 ≤ f) (hij : i ≤ j) :
    min ⌊(b : K) * f ^ i⌋₊ cap ≤ min ⌊(b : K) * f ^ j⌋₊ cap := by
  have hpow : f ^ i ≤ f ^ j := pow_le_pow_right₀ hf hij
  have hmul : (b : K) * f ^ i ≤ b * f ^ j := mul_le_mul_of_nonneg_left hpow (Nat.cast_nonneg b)
  exact min_le_min_right cap (Nat.floor_mono hmul)

/-- The quotient is below `b`, unless there is nothing to divide. -/
theorem floor_div_pow_lt (hf : 1 < f) (hb : 0 < b) (hk : 0 < k) : ⌊(b : K) / f ^ k⌋₊ < b := by
  have hpos : (0 : K) < b := Nat.cast_pos.mpr hb
  have hpow : 1 < f ^ k := one_lt_pow₀ hf (Nat.pos_iff_ne_zero.mp hk)
  rw [Nat.floor_lt (div_nonneg hpos.le (zero_le_one.trans hpow.le))]
  exact div_lt_self hpos hpow

theorem le_floor_mul_pow (hf : 1 ≤ f) (b i : ℕ) : b ≤ ⌊(b : K) * f ^ i⌋₊ :=
  Nat.le_floor (le_mul_pow hf b i)

theorem floor_div_pow_le_floor_mul_pow (hf : 1 ≤ f) (b k i : ℕ) : ⌊(b : K) / f ^ k⌋₊ ≤ ⌊(b : K) * f ^ i⌋₊ :=
  Nat.floor_mono ((div_le_self (Nat.cast_nonneg b) (one_le_pow₀ hf)).trans (le_mul_pow hf b i))

theorem floor_div_pow_eq_floor_mul_pow_iff (hf : 1 ≤ f) (hk : 0 < k) :
    ⌊(b : K) / f ^ k⌋₊ = ⌊(b : K) * f ^ i⌋₊ ↔ b = 0 ∨ f = 1 := by
  constructor
  · intro h
    by_contra hne
    rw [not_or] at hne
    obtain ⟨hb, hf1⟩ := hne
    have hlt : ⌊(b : K) / f ^ k⌋₊ < b := floor_div_pow_lt (lt_of_le_of_ne hf (Ne.symm hf1)) (Nat.pos_of_ne_zero hb) hk
    have hle : b ≤ ⌊(b : K) * f ^ i⌋₊ := le_floor_mul_pow hf b i
    omega
  · rintro (rfl | rfl)
    · simp
    · simp

theorem le_floor_div_pow_iff (hf : 1 ≤ f) : cap ≤ ⌊(b : K) / f ^ k⌋₊ ↔ cap * f ^ k ≤ (b : K) := by
  have hpow : 0 < f ^ k := pow_pos (zero_lt_one.trans_le hf) k
  rw [Nat.le_floor_iff (div_nonneg (Nat.cast_nonneg b) hpow.le), le_div_iff₀ hpow]

/-- Divided instead of multiplied, the capped number is the same exactly if
there is nothing to divide or what is left of it is still capped. -/
theorem min_floor_div_pow_eq_iff (hf : 1 ≤ f) (hk : 0 < k) :
    min ⌊(b : K) / f ^ k⌋₊ cap = min ⌊(b : K) * f ^ i⌋₊ cap ↔ b = 0 ∨ f = 1 ∨ cap * f ^ k ≤ (b : K) := by
  have heq : ⌊(b : K) / f ^ k⌋₊ = ⌊(b : K) * f ^ i⌋₊ ↔ b = 0 ∨ f = 1 := floor_div_pow_eq_floor_mul_pow_iff hf hk
  have hle : cap ≤ ⌊(b : K) / f ^ k⌋₊ ↔ cap * f ^ k ≤ (b : K) := le_floor_div_pow_iff hf
  have hbelow : ⌊(b : K) / f ^ k⌋₊ ≤ ⌊(b : K) * f ^ i⌋₊ := floor_div_pow_le_floor_mul_pow hf b k i
  rw [← or_assoc, ← heq, ← hle]
  omega

end WalaStack.Powers
