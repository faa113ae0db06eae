import WalaStack.Framework.Decimal
import WalaStack.Rust.Chrono

/-!
# RFC 3339 text of an instant

What `DateTime<Utc>::to_rfc3339` is documented to print for the years 0 to
9999: the date of the proleptic Gregorian calendar, the time of day, as many
groups of three decimals of the second as the value needs, and the offset. In
these years the text sorts by time (`toRfc3339_le_iff`).
-/

namespace WalaStack.Rust

open WalaStack.Decimal

/-! ## Dates -/

structure Date where
  year : Nat
  month : Nat
  day : Nat
deriving DecidableEq, Repr

def isLeap (year : Nat) : Bool := year % 4 = 0 && (year % 100 ≠ 0 || year % 400 = 0)

def daysInMonth (year : Nat) : Nat → Nat
  | 2 => if isLeap year then 29 else 28
  | 4 | 6 | 9 | 11 => 30
  | _ => 31

namespace Date

def next (d : Date) : Date :=
  if d.day < daysInMonth d.year d.month then { d with day := d.day + 1 }
  else if d.month < 12 then ⟨d.year, d.month + 1, 1⟩
  else ⟨d.year + 1, 1, 1⟩

/-- The date `n` days after the first day of the year 0. -/
def ofDays (n : Nat) : Date := Nat.iterate next n ⟨0, 1, 1⟩

theorem ofDays_succ (n : Nat) : ofDays (n + 1) = (ofDays n).next := Function.iterate_succ_apply' ..

instance : LT Date where
  lt a b := a.year < b.year ∨ a.year = b.year ∧ (a.month < b.month ∨ a.month = b.month ∧ a.day < b.day)

theorem lt_def {a b : Date} : a < b ↔
    a.year < b.year ∨ a.year = b.year ∧ (a.month < b.month ∨ a.month = b.month ∧ a.day < b.day) := Iff.rfl

theorem lt_trans {a b c : Date} (h : a < b) (h' : b < c) : a < c := by
  rw [lt_def] at *
  omega

theorem lt_next (d : Date) : d < d.next := by
  unfold next
  split
  · exact .inr ⟨rfl, .inr ⟨rfl, Nat.lt_succ_self _⟩⟩
  · split
    · exact .inr ⟨rfl, .inl (Nat.lt_succ_self _)⟩
    · exact .inl (Nat.lt_succ_self _)

/-- Later days have later dates. -/
theorem ofDays_lt {n m : Nat} (h : n < m) : ofDays n < ofDays m := by
  induction h with
  | refl => exact ofDays_succ n ▸ lt_next _
  | step _ ih => exact lt_trans ih (ofDays_succ _ ▸ lt_next _)

/-! ### The number of a date -/

structure Valid (d : Date) : Prop where
  month : 1 ≤ d.month ∧ d.month ≤ 12
  day : 1 ≤ d.day ∧ d.day ≤ daysInMonth d.year d.month

/-- The days before a year. -/
def beforeYear (year : Nat) : Nat := 365 * year + (year + 3) / 4 - (year + 99) / 100 + (year + 399) / 400

/-- The days of a year before the month after `k`. -/
def beforeMonth (year : Nat) : Nat → Nat
  | 0 => 0
  | k + 1 => beforeMonth year k + daysInMonth year (k + 1)

/-- The days before a date. -/
def days (d : Date) : Nat := beforeYear d.year + beforeMonth d.year (d.month - 1) + (d.day - 1)

theorem one_le_daysInMonth (year month : Nat) : 1 ≤ daysInMonth year month := by
  unfold daysInMonth
  split
  · split <;> decide
  all_goals decide

theorem beforeMonth_twelve (year : Nat) : beforeMonth year 12 = if isLeap year then 366 else 365 := by
  simp only [beforeMonth, daysInMonth]
  split <;> rfl

theorem beforeYear_succ (year : Nat) : beforeYear (year + 1) = beforeYear year + beforeMonth year 12 := by
  have h4 : (year + 1 + 3) / 4 = (year + 3) / 4 + if year % 4 = 0 then 1 else 0 := by split <;> omega
  have h100 : (year + 1 + 99) / 100 = (year + 99) / 100 + if year % 100 = 0 then 1 else 0 := by split <;> omega
  have h400 : (year + 1 + 399) / 400 = (year + 399) / 400 + if year % 400 = 0 then 1 else 0 := by split <;> omega
  have hle : (year + 99) / 100 ≤ (year + 3) / 4 := by omega
  rw [beforeMonth_twelve, beforeYear, beforeYear, h4, h100, h400]
  simp only [isLeap, Bool.and_eq_true, Bool.or_eq_true, decide_eq_true_eq]
  by_cases h₁ : year % 400 = 0
  · have h₂ : year % 100 = 0 := by omega
    have h₃ : year % 4 = 0 := by omega
    simp only [h₁, h₂, h₃, ite_true, true_and, or_true]
    omega
  · by_cases h₂ : year % 100 = 0
    · have h₃ : year % 4 = 0 := by omega
      simp only [h₁, h₂, h₃, ite_true, ite_false, ne_eq, not_true, or_false, and_false]
      omega
    · simp only [h₁, h₂, ite_false, ne_eq, not_false_eq_true, true_or, and_true]
      split <;> omega

theorem valid_next {d : Date} (h : Valid d) : Valid d.next := by
  obtain ⟨⟨hm, hm'⟩, hd, hd'⟩ := h
  unfold next
  split
  · rename_i hlt
    exact ⟨⟨hm, hm'⟩, Nat.le_add_left 1 _, hlt⟩
  · split
    · rename_i hlt
      exact ⟨⟨Nat.le_add_left 1 _, hlt⟩, Nat.le_refl _, one_le_daysInMonth _ _⟩
    · exact ⟨⟨Nat.le_refl _, Nat.le_add_left 1 11⟩, Nat.le_refl _, one_le_daysInMonth _ _⟩

theorem days_next {d : Date} (h : Valid d) : d.next.days = d.days + 1 := by
  obtain ⟨⟨hm, hm'⟩, hd, hd'⟩ := h
  unfold next
  split
  · simp only [days]
    omega
  · rename_i hlast
    split
    · obtain ⟨k, hk⟩ : ∃ k, d.month = k + 1 := ⟨d.month - 1, by omega⟩
      simp only [days, hk, Nat.add_sub_cancel, beforeMonth]
      rw [hk] at hlast hd'
      omega
    · have hk : d.month = 11 + 1 := by omega
      have hsucc := beforeYear_succ d.year
      simp only [days, hk, beforeMonth, Nat.sub_self, Nat.add_sub_cancel] at hsucc ⊢
      rw [hk] at hlast hd'
      omega

example : next ⟨1900, 2, 28⟩ = ⟨1900, 3, 1⟩ ∧ next ⟨2000, 2, 28⟩ = ⟨2000, 2, 29⟩ := by decide

theorem days_ofDays (n : Nat) : Valid (ofDays n) ∧ (ofDays n).days = n := by
  induction n with
  | zero => exact ⟨⟨by decide, by decide, by decide⟩, rfl⟩
  | succ n ih =>
    rw [ofDays_succ]
    exact ⟨valid_next ih.1, by rw [days_next ih.1, ih.2]⟩

/-- The years 0 to 9999 have 3652425 days. -/
theorem year_ofDays {n : Nat} (h : n < 3652425) : (ofDays n).year < 10000 := by
  have hn := (days_ofDays n).2
  unfold days beforeYear at hn
  omega

end Date

/-! ## Text -/

def Date.text (d : Date) : List Char := digits 4 d.year ++ '-' :: digits 2 d.month ++ '-' :: digits 2 d.day

/-- The text of a second of the day. -/
def timeText (s : Nat) : List Char :=
  digits 2 (s / 3600) ++ ':' :: digits 2 (s / 60 % 60) ++ ':' :: digits 2 (s % 60)

/-- The decimals of a second, `SecondsFormat::AutoSi`. -/
def subsecText (nanos : Nat) : List Char := if nanos = 0 then [] else '.' :: groups 3 nanos

/-- The years in which the text has four digits of the year. -/
def DateTime.InYears (t : DateTime) : Prop :=
  -62167219200 * 1000000000 ≤ t.nanos ∧ t.nanos < 253402300800 * 1000000000

namespace DateTime

instance (t : DateTime) : Decidable t.InYears := inferInstanceAs (Decidable (_ ∧ _))

/-- The nanoseconds since the start of the year 0. -/
def sinceYearZero (t : DateTime) : Nat := (t.nanos + 62167219200 * 1000000000).toNat

/-- `to_rfc3339` -/
def toRfc3339 (t : DateTime) : String :=
  let n := t.sinceYearZero
  String.ofList ((Date.ofDays (n / 1000000000 / 86400)).text ++ 'T' :: timeText (n / 1000000000 % 86400) ++
    subsecText (n % 1000000000) ++ ['+', '0', '0', ':', '0', '0'])

end DateTime

/-! ## Order -/

theorem cons_lt_cons {c : Char} {x y : List Char} (h : x < y) : c :: x < c :: y :=
  List.cons_lt_cons_iff.mpr (.inr ⟨rfl, h⟩)

/-- A date, and the text after it. -/
theorem date_append_lt {n m : Nat} {x y : List Char} (hm : m < 3652425) (h : n < m ∨ n = m ∧ x < y) :
    (Date.ofDays n).text ++ x < (Date.ofDays m).text ++ y := by
  rcases h with h | ⟨rfl, h⟩
  · have hlt := Date.ofDays_lt h
    have hyear := Date.year_ofDays hm
    obtain ⟨⟨-, hmonth⟩, -, hday⟩ := (Date.days_ofDays m).1
    have hday' : (Date.ofDays m).day < 10 ^ 2 := by
      have hdim : daysInMonth (Date.ofDays m).year (Date.ofDays m).month ≤ 31 := by
        unfold daysInMonth
        split
        · split <;> decide
        all_goals decide
      omega
    simp only [Date.text, List.append_assoc, List.cons_append]
    rw [Date.lt_def] at hlt
    refine digits_append_lt hyear (hlt.imp_right fun h => ⟨h.1, cons_lt_cons ?_⟩)
    refine digits_append_lt (by omega) (h.2.imp_right fun h => ⟨h.1, cons_lt_cons ?_⟩)
    exact digits_append_lt hday' (.inl h.2)
  · exact List.append_left_lt h

/-- A second of the day, and the text after it. -/
theorem time_append_lt {s s' : Nat} {x y : List Char} (hs : s' < 86400) (h : s < s' ∨ s = s' ∧ x < y) :
    timeText s ++ x < timeText s' ++ y := by
  rcases h with h | ⟨rfl, h⟩
  · simp only [timeText, List.append_assoc, List.cons_append]
    apply digits_append_lt (by omega)
    by_cases hh : s / 3600 < s' / 3600
    · exact .inl hh
    · refine .inr ⟨by omega, cons_lt_cons ?_⟩
      apply digits_append_lt (by omega)
      by_cases hmin : s / 60 % 60 < s' / 60 % 60
      · exact .inl hmin
      · refine .inr ⟨by omega, cons_lt_cons ?_⟩
        exact digits_append_lt (by omega) (.inl (by omega))
  · exact List.append_left_lt h

theorem subsec_append_lt {n m : Nat} {x : List Char} (hm : m < 1000000000) (h : n < m) :
    subsecText n ++ '+' :: x < subsecText m ++ '+' :: x := by
  have hm0 : m ≠ 0 := by omega
  rw [subsecText, subsecText, if_neg hm0]
  split
  · exact List.cons_lt_cons_iff.mpr (.inl (by decide))
  · exact cons_lt_cons (groups_append_lt (by decide) h (by omega))

namespace DateTime

variable {t u : DateTime}

theorem toRfc3339_lt (ht : t.InYears) (hu : u.InYears) (h : t.nanos < u.nanos) : t.toRfc3339 < u.toRfc3339 := by
  have hn : t.sinceYearZero < u.sinceYearZero := by
    unfold sinceYearZero InYears at *
    omega
  have hmax : u.sinceYearZero < 3652425 * 86400 * 1000000000 := by
    unfold sinceYearZero InYears at *
    omega
  rw [String.lt_iff]
  simp only [toRfc3339, String.toList_ofList, List.append_assoc, List.cons_append]
  generalize t.sinceYearZero = n at hn
  generalize u.sinceYearZero = m at hn hmax
  apply date_append_lt (by omega)
  by_cases hday : n / 1000000000 / 86400 < m / 1000000000 / 86400
  · exact .inl hday
  · refine .inr ⟨by omega, cons_lt_cons (time_append_lt (Nat.mod_lt _ (by decide)) ?_)⟩
    by_cases hsec : n / 1000000000 % 86400 < m / 1000000000 % 86400
    · exact .inl hsec
    · exact .inr ⟨by omega, subsec_append_lt (Nat.mod_lt _ (by decide)) (by omega)⟩

/-- The text sorts by time. -/
theorem toRfc3339_lt_iff (ht : t.InYears) (hu : u.InYears) : t.toRfc3339 < u.toRfc3339 ↔ t.nanos < u.nanos := by
  refine ⟨fun h => ?_, toRfc3339_lt ht hu⟩
  by_contra hle
  rcases Int.lt_or_eq_of_le (Int.not_lt.mp hle) with hlt | heq
  · exact String.lt_asymm h (toRfc3339_lt hu ht hlt)
  · rw [DateTime.ext heq] at h
    exact String.lt_irrefl _ h

theorem toRfc3339_le_iff (ht : t.InYears) (hu : u.InYears) : t.toRfc3339 ≤ u.toRfc3339 ↔ t ≤ u := by
  show ¬ u.toRfc3339 < t.toRfc3339 ↔ t.nanos ≤ u.nanos
  rw [toRfc3339_lt_iff hu ht, Int.not_lt]

theorem toRfc3339_inj (ht : t.InYears) (hu : u.InYears) (h : t.toRfc3339 = u.toRfc3339) : t = u := by
  have hlt : ¬ t.nanos < u.nanos := by
    rw [← toRfc3339_lt_iff ht hu, h]
    exact String.lt_irrefl _
  have hgt : ¬ u.nanos < t.nanos := by
    rw [← toRfc3339_lt_iff hu ht, h]
    exact String.lt_irrefl _
  apply DateTime.ext
  omega

end DateTime

end WalaStack.Rust
