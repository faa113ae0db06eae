import Mathlib.Algebra.Group.Nat.Defs
import Mathlib.Data.List.Lex
import Mathlib.Order.Basic
import Mathlib.Tactic.Ring

/-!
# Decimal text in the order of its numbers

Text is compared character by character. `digits w n` are the last `w` decimal
digits of `n`; numbers that fit compare as their digits do (`digits_append_lt`),
and so do fractions cut off after a group of three digits
(`groups_append_lt`), if what follows them sorts before the digits.

`readDigits` and `readFraction` read them back (`readDigits_digits`,
`readFraction_groups`).
-/

namespace WalaStack.Decimal

/-- The last decimal digit. -/
def digit (n : Nat) : Char := Char.ofNat (48 + n % 10)

/-- The last `w` decimal digits. -/
def digits : Nat → Nat → List Char
  | 0, _ => []
  | w + 1, n => digits w (n / 10) ++ [digit n]

/-- A fraction of `1000 ^ k` in groups of three digits, as many as it needs. -/
def groups : Nat → Nat → List Char
  | 0, _ => []
  | k + 1, n => if n = 0 then [] else digits 3 (n / 1000 ^ k) ++ groups k (n % 1000 ^ k)

theorem toNat_digit (n : Nat) : (digit n).toNat = 48 + n % 10 := by
  have h : ∀ m < 10, (Char.ofNat (48 + m)).toNat = 48 + m := by decide
  exact h (n % 10) (Nat.mod_lt _ (by decide))

theorem digit_lt {a b : Nat} (h : a % 10 < b % 10) : digit a < digit b := by
  show (digit a).toNat < (digit b).toNat
  rw [toNat_digit, toNat_digit]
  omega

theorem lt_digit {c : Char} (hc : c < '0') (n : Nat) : c < digit n := by
  have hc : c.toNat < 48 := hc
  show c.toNat < (digit n).toNat
  rw [toNat_digit]
  omega

theorem length_digits (w n : Nat) : (digits w n).length = w := by
  induction w generalizing n with
  | zero => rfl
  | succ w ih => simp [digits, ih]

/-- Text is compared by its first parts, if they are of one length. -/
theorem append_lt_append {a b x y : List Char} (hl : a.length = b.length) (h : a < b ∨ a = b ∧ x < y) :
    a ++ x < b ++ y := by
  rcases h with h | ⟨rfl, h⟩
  · induction a generalizing b with
    | nil =>
      obtain rfl := List.length_eq_zero_iff.mp hl.symm
      exact absurd h (List.lt_irrefl _)
    | cons c a ih =>
      obtain ⟨d, b, rfl⟩ := List.exists_of_length_succ b hl.symm
      rw [List.cons_append, List.cons_append, List.cons_lt_cons_iff]
      rcases List.cons_lt_cons_iff.mp h with hlt | ⟨rfl, hlt⟩
      · exact .inl hlt
      · exact .inr ⟨rfl, ih (by simpa using hl) hlt⟩
  · exact List.append_left_lt h

theorem digits_lt {w a b : Nat} (hab : a < b) (hb : b < 10 ^ w) : digits w a < digits w b := by
  induction w generalizing a b with
  | zero =>
    rw [Nat.pow_zero] at hb
    omega
  | succ w ih =>
    have hb' : b / 10 < 10 ^ w := by
      rw [Nat.pow_succ] at hb
      omega
    apply append_lt_append (by simp [length_digits])
    by_cases h : a / 10 < b / 10
    · exact .inl (ih h hb')
    · have heq : a / 10 = b / 10 := by omega
      refine .inr ⟨by rw [heq], List.cons_lt_cons_iff.mpr (.inl (digit_lt ?_))⟩
      omega

/-- A number of fixed width, and the text after it. -/
theorem digits_append_lt {w a b : Nat} {x y : List Char} (hb : b < 10 ^ w) (h : a < b ∨ a = b ∧ x < y) :
    digits w a ++ x < digits w b ++ y := by
  apply append_lt_append (by rw [length_digits, length_digits])
  rcases h with h | ⟨rfl, h⟩
  · exact .inl (digits_lt h hb)
  · exact .inr ⟨rfl, h⟩

/-- A fraction, and text after it that sorts before the digits. -/
theorem groups_append_lt {k n m : Nat} {c : Char} {x y : List Char} (hc : c < '0') (hnm : n < m)
    (hm : m < 1000 ^ k) : groups k n ++ c :: x < groups k m ++ c :: y := by
  induction k generalizing n m with
  | zero =>
    rw [Nat.pow_zero] at hm
    omega
  | succ k ih =>
    have hpos : 0 < 1000 ^ k := Nat.pow_pos (by decide)
    have hm0 : m ≠ 0 := by omega
    rw [groups, groups, if_neg hm0]
    split
    · -- The shorter fraction is followed by what sorts before a digit.
      show c :: x < digits 3 _ ++ _ ++ _
      simp only [digits, List.nil_append, List.cons_append]
      exact List.cons_lt_cons_iff.mpr (.inl (lt_digit hc _))
    · rw [List.append_assoc, List.append_assoc]
      have hdiv : m / 1000 ^ k < 10 ^ 3 := by
        rw [Nat.div_lt_iff_lt_mul hpos]
        rw [Nat.pow_succ] at hm
        omega
      apply digits_append_lt hdiv
      have hle : n / 1000 ^ k ≤ m / 1000 ^ k := Nat.div_le_div_right hnm.le
      rcases Nat.lt_or_eq_of_le hle with hlt | heq
      · exact .inl hlt
      · refine .inr ⟨heq, ih ?_ (Nat.mod_lt _ hpos)⟩
        have hn' := Nat.div_add_mod n (1000 ^ k)
        have hm' := Nat.div_add_mod m (1000 ^ k)
        rw [heq] at hn'
        omega

/-! ## Reading -/

def isDigit (c : Char) : Bool := decide (48 ≤ c.toNat) && decide (c.toNat ≤ 57)

/-- Reads `w` digits, behind those of `acc`. -/
def readDigits : Nat → Nat → List Char → Option (Nat × List Char)
  | 0, acc, s => some (acc, s)
  | _ + 1, _, [] => none
  | w + 1, acc, c :: s => if isDigit c then readDigits w (10 * acc + (c.toNat - 48)) s else none

/-- Reads a fraction to `w` digits, behind those of `acc`, and passes over
further ones. -/
def readFraction : Nat → Nat → List Char → Nat × List Char
  | 0, acc, s => (acc, s.dropWhile isDigit)
  | w + 1, acc, [] => (acc * 10 ^ (w + 1), [])
  | w + 1, acc, c :: s =>
    if isDigit c then readFraction w (10 * acc + (c.toNat - 48)) s else (acc * 10 ^ (w + 1), c :: s)

theorem isDigit_digit (n : Nat) : isDigit (digit n) = true := by
  rw [isDigit, toNat_digit]
  simp only [Bool.and_eq_true, decide_eq_true_eq]
  omega

/-- All of them are digits. -/
theorem mem_digits {w n : Nat} {c : Char} (h : c ∈ digits w n) : isDigit c = true := by
  induction w generalizing n with
  | zero => cases h
  | succ w ih =>
    rw [digits, List.mem_append, List.mem_singleton] at h
    rcases h with h | rfl
    · exact ih h
    · exact isDigit_digit n

theorem readDigits_append {w n : Nat} (h : n < 10 ^ w) (k acc : Nat) (s : List Char) :
    readDigits (w + k) acc (digits w n ++ s) = readDigits k (10 ^ w * acc + n) s := by
  induction w generalizing n k s with
  | zero =>
    rw [Nat.pow_zero] at h
    obtain rfl : n = 0 := by omega
    simp [digits]
  | succ w ih =>
    have hdiv : n / 10 < 10 ^ w := by
      rw [Nat.pow_succ] at h
      omega
    rw [digits, List.append_assoc, List.singleton_append, show w + 1 + k = w + (k + 1) by omega, ih hdiv]
    rw [readDigits, isDigit_digit, if_pos rfl, toNat_digit]
    congr 1
    rw [Nat.pow_succ, Nat.mul_comm (10 ^ w) 10, Nat.mul_assoc]
    omega

/-- A number of fixed width is read back. -/
theorem readDigits_digits {w n : Nat} (h : n < 10 ^ w) (s : List Char) :
    readDigits w 0 (digits w n ++ s) = some (n, s) := by
  have hread := readDigits_append h 0 0 s
  rwa [Nat.mul_zero, Nat.zero_add] at hread

theorem readFraction_append {w n : Nat} (h : n < 10 ^ w) (k acc : Nat) (s : List Char) :
    readFraction (w + k) acc (digits w n ++ s) = readFraction k (10 ^ w * acc + n) s := by
  induction w generalizing n k s with
  | zero =>
    rw [Nat.pow_zero] at h
    obtain rfl : n = 0 := by omega
    simp [digits]
  | succ w ih =>
    have hdiv : n / 10 < 10 ^ w := by
      rw [Nat.pow_succ] at h
      omega
    rw [digits, List.append_assoc, List.singleton_append, show w + 1 + k = w + (k + 1) by omega, ih hdiv]
    rw [readFraction, isDigit_digit, if_pos rfl, toNat_digit]
    congr 1
    rw [Nat.pow_succ, Nat.mul_comm (10 ^ w) 10, Nat.mul_assoc]
    omega

/-- A fraction in groups of digits is read back, up to what is no digit. -/
theorem readFraction_groups {k n : Nat} {c : Char} (hc : isDigit c = false) (h : n < 1000 ^ k) (acc : Nat)
    (s : List Char) : readFraction (3 * k) acc (groups k n ++ c :: s) = (acc * 1000 ^ k + n, c :: s) := by
  induction k generalizing n acc with
  | zero =>
    rw [Nat.pow_zero] at h
    obtain rfl : n = 0 := by omega
    simp [groups, readFraction, hc]
  | succ k ih =>
    have hpos : 0 < 1000 ^ k := Nat.pow_pos (by decide)
    rw [groups]
    split
    · rename_i hn
      rw [List.nil_append, show 3 * (k + 1) = 3 * k + 2 + 1 by omega, readFraction, hc, if_neg Bool.false_ne_true, hn,
        Nat.add_zero, show 3 * k + 2 + 1 = 3 * (k + 1) by omega, Nat.pow_mul]
      rfl
    · have hdiv : n / 1000 ^ k < 10 ^ 3 := by
        rw [Nat.div_lt_iff_lt_mul hpos]
        rw [Nat.pow_succ] at h
        omega
      rw [List.append_assoc, show 3 * (k + 1) = 3 + 3 * k by omega, readFraction_append hdiv,
        ih (Nat.mod_lt _ hpos)]
      congr 1
      calc (10 ^ 3 * acc + n / 1000 ^ k) * 1000 ^ k + n % 1000 ^ k
          = acc * 1000 ^ (k + 1) + (1000 ^ k * (n / 1000 ^ k) + n % 1000 ^ k) := by ring
        _ = acc * 1000 ^ (k + 1) + n := by rw [Nat.div_add_mod]

end WalaStack.Decimal
