import WalaStack.Rust.Rfc3339

/-!
# Reading RFC 3339 text

What `DateTime::parse_from_rfc3339` is documented to accept, as an instant in
UTC: four digits of the year, and an offset after the time. `printRfc3339` is
`to_rfc3339` for every instant: before the year 0 and after the year 9999 the
year has a sign, and the text is not read back (`signed_printRfc3339`); between
them it is (`parseRfc3339_printRfc3339`). Leap seconds are left out.
-/

namespace WalaStack.Rust

open WalaStack.Decimal

/-! ## Reading -/

/-- `scan::char` -/
def expect (c : Char) : List Char → Option (List Char)
  | [] => none
  | d :: s => if d = c then some s else none

@[simp] theorem expect_cons (c : Char) (s : List Char) : expect c (c :: s) = some s := if_pos rfl

/-- A date, and the rest of the text. -/
def readDate (s : List Char) : Option (Date × List Char) := do
  let (year, s) ← readDigits 4 0 s
  let (month, s) ← readDigits 2 0 (← expect '-' s)
  let (day, s) ← readDigits 2 0 (← expect '-' s)
  if 1 ≤ month ∧ month ≤ 12 ∧ 1 ≤ day ∧ day ≤ daysInMonth year month then some (⟨year, month, day⟩, s) else none

/-- A second of the day. -/
def readTime (s : List Char) : Option (Nat × List Char) := do
  let (hour, s) ← readDigits 2 0 s
  let (minute, s) ← readDigits 2 0 (← expect ':' s)
  let (second, s) ← readDigits 2 0 (← expect ':' s)
  if hour < 24 ∧ minute < 60 ∧ second < 60 then some (hour * 3600 + minute * 60 + second, s) else none

/-- The nanoseconds of a second: `.` and at least one digit. -/
def readSubsec : List Char → Option (Nat × List Char)
  | '.' :: c :: s => if isDigit c then some (readFraction 9 0 (c :: s)) else none
  | '.' :: [] => none
  | s => some (0, s)

/-- The seconds that the local time is ahead of UTC. -/
def readOffset : List Char → Option (Int × List Char)
  | 'Z' :: s | 'z' :: s => some (0, s)
  | c :: s => do
    let (hours, s) ← readDigits 2 0 s
    let (minutes, s) ← readDigits 2 0 (← expect ':' s)
    let secs := hours * 3600 + minutes * 60
    if hours < 24 ∧ minutes < 60 then
      if c = '+' then some (secs, s) else if c = '-' then some (-secs, s) else none
    else none
  | [] => none

/-- The instant of a date, a second of the day and its nanoseconds. -/
def instant (d : Date) (secs nanos : Nat) (offset : Int) : Option DateTime :=
  let n := ((d.days * 86400 + secs : Nat) - offset - 62167219200) * 1000000000 + nanos
  if h : minUtcNanos ≤ n ∧ n ≤ maxUtcNanos then some ⟨n, h.1, h.2⟩ else none

/-- `parse_from_rfc3339`, in UTC. -/
def parseRfc3339 (text : String) : Option DateTime := do
  let (d, s) ← readDate text.toList
  let s ← match s with
    | 'T' :: s | 't' :: s | ' ' :: s => some s
    | _ => none
  let (secs, s) ← readTime s
  let (nanos, s) ← readSubsec s
  let (offset, s) ← readOffset s
  if s.isEmpty then instant d secs nanos offset else none

/-! ## Printing -/

/-- The decimal digits of a number, at least four. -/
def yearDigits (n : Nat) : List Char := if n < 10000 then digits 4 n else (toString n).toList

/-- The year, with its sign outside of the years 0 to 9999. -/
def yearText (year : Int) : List Char :=
  if 0 ≤ year ∧ year < 10000 then digits 4 year.toNat
  else (if 0 ≤ year then '+' else '-') :: yearDigits year.natAbs

namespace DateTime

/-- `to_rfc3339`, in any year: the calendar repeats every 400 years. -/
def printRfc3339 (t : DateTime) : String :=
  if t.InYears then t.toRfc3339
  else
    let n := t.nanos + 62167219200 * 1000000000
    let day := n / 1000000000 / 86400
    let d := Date.ofDays (day % 146097).toNat
    let secs := (n / 1000000000 % 86400).toNat
    String.ofList (yearText (day / 146097 * 400 + d.year) ++ '-' :: digits 2 d.month ++ '-' :: digits 2 d.day ++
      'T' :: timeText secs ++ subsecText (n % 1000000000).toNat ++ ['+', '0', '0', ':', '0', '0'])

end DateTime

/-! ## Text that is read back -/

/-- A year has no sign. -/
theorem parseRfc3339_of_sign {text : String} {c : Char} {s : List Char} (h : text.toList = c :: s)
    (hc : c = '+' ∨ c = '-') : parseRfc3339 text = none := by
  have hdigit : isDigit c = false := by rcases hc with rfl | rfl <;> decide
  simp [parseRfc3339, readDate, h, readDigits, hdigit]

theorem readDate_text {d : Date} (h : d.Valid) (hy : d.year < 10000) (s : List Char) :
    readDate (d.text ++ s) = some (d, s) := by
  obtain ⟨⟨hm, hm'⟩, hd, hd'⟩ := h
  have hdim : daysInMonth d.year d.month ≤ 31 := by
    unfold daysInMonth
    split
    · split <;> decide
    all_goals decide
  simp only [readDate, Date.text, List.append_assoc, List.cons_append]
  rw [readDigits_digits hy]
  simp only [Option.bind_eq_bind, Option.bind_some, expect_cons]
  rw [readDigits_digits (by omega)]
  simp only [Option.bind_some, expect_cons]
  rw [readDigits_digits (by omega)]
  simp only [Option.bind_some, hm, hm', hd, hd', and_self, ite_true]

theorem readTime_text {n : Nat} (h : n < 86400) (s : List Char) : readTime (timeText n ++ s) = some (n, s) := by
  simp only [readTime, timeText, List.append_assoc, List.cons_append]
  rw [readDigits_digits (by omega)]
  simp only [Option.bind_eq_bind, Option.bind_some, expect_cons]
  rw [readDigits_digits (by omega)]
  simp only [Option.bind_some, expect_cons]
  rw [readDigits_digits (by omega)]
  have hrange : n / 3600 < 24 ∧ n / 60 % 60 < 60 ∧ n % 60 < 60 := by omega
  have hsum : n / 3600 * 3600 + n / 60 % 60 * 60 + n % 60 = n := by omega
  simp only [Option.bind_some, hrange, and_self, ite_true, hsum]

theorem readSubsec_text {n : Nat} (h : n < 1000000000) (s : List Char) :
    readSubsec (subsecText n ++ '+' :: s) = some (n, '+' :: s) := by
  unfold subsecText
  split
  · rename_i hn
    rw [hn]
    rfl
  · rename_i hn
    have hread := readFraction_groups (k := 3) (c := '+') (by decide) h 0 s
    rw [Nat.zero_mul, Nat.zero_add] at hread
    have hfirst : groups 3 n = digit (n / 1000000 / 10 / 10) :: (groups 3 n).tail := by
      rw [groups, if_neg hn]
      rfl
    rw [hfirst] at hread ⊢
    show (if isDigit _ then some (readFraction (3 * 3) 0 _) else none) = _
    rw [isDigit_digit, if_pos rfl]
    exact congrArg some hread

theorem readOffset_utc : readOffset ['+', '0', '0', ':', '0', '0'] = some (0, []) := by decide

/-- A date, a time of the day and its nanoseconds are read back. -/
theorem parseRfc3339_text {d : Date} {secs nanos : Nat} (h : d.Valid) (hy : d.year < 10000) (hsecs : secs < 86400)
    (hnanos : nanos < 1000000000) :
    parseRfc3339 (String.ofList (d.text ++ 'T' :: timeText secs ++ subsecText nanos ++
      ['+', '0', '0', ':', '0', '0'])) = instant d secs nanos 0 := by
  simp only [parseRfc3339, String.toList_ofList, List.append_assoc, List.cons_append]
  rw [readDate_text h hy]
  simp only [Option.bind_eq_bind, Option.bind_some]
  rw [readTime_text hsecs]
  simp only [Option.bind_some]
  rw [readSubsec_text hnanos, Option.bind_some, readOffset_utc, Option.bind_some]
  exact if_pos rfl

theorem instant_sinceYearZero {t : DateTime} (ht : t.InYears) :
    instant (Date.ofDays (t.sinceYearZero / 1000000000 / 86400)) (t.sinceYearZero / 1000000000 % 86400)
      (t.sinceYearZero % 1000000000) 0 = some t := by
  have hdays := (Date.days_ofDays (t.sinceYearZero / 1000000000 / 86400)).2
  have hn : (t.sinceYearZero : Int) = t.nanos + 62167219200 * 1000000000 := by
    unfold DateTime.sinceYearZero DateTime.InYears at *
    omega
  have heq : (((Date.ofDays (t.sinceYearZero / 1000000000 / 86400)).days * 86400 +
      t.sinceYearZero / 1000000000 % 86400 : Nat) - (0 : Int) - 62167219200) * 1000000000 +
      (t.sinceYearZero % 1000000000 : Nat) = t.nanos := by
    rw [hdays]
    omega
  simp only [instant, heq, t.min_le, t.le_max, and_self, dite_true]

namespace DateTime

variable {t : DateTime}

/-- The text of these years is read back. -/
theorem parseRfc3339_toRfc3339 (ht : t.InYears) : parseRfc3339 t.toRfc3339 = some t := by
  have hmax : t.sinceYearZero < 3652425 * 86400 * 1000000000 := by
    unfold sinceYearZero InYears at *
    omega
  have hdate := (Date.days_ofDays (t.sinceYearZero / 1000000000 / 86400)).1
  have hyear : (Date.ofDays (t.sinceYearZero / 1000000000 / 86400)).year < 10000 := Date.year_ofDays (by omega)
  have hsecs : t.sinceYearZero / 1000000000 % 86400 < 86400 := by omega
  have hnanos : t.sinceYearZero % 1000000000 < 1000000000 := by omega
  exact (parseRfc3339_text hdate hyear hsecs hnanos).trans (instant_sinceYearZero ht)

theorem printRfc3339_of_inYears (ht : t.InYears) : t.printRfc3339 = t.toRfc3339 := by
  simp only [printRfc3339, ht, ite_true]

theorem parseRfc3339_printRfc3339 (ht : t.InYears) : parseRfc3339 t.printRfc3339 = some t := by
  rw [printRfc3339_of_inYears ht, parseRfc3339_toRfc3339 ht]

/-- The 400 years that a day is in, and its year in them. -/
theorem year_outside {day : Int} (h : day < 0 ∨ 3652425 ≤ day) :
    ¬ (0 ≤ day / 146097 * 400 + (Date.ofDays (day % 146097).toNat).year ∧
      day / 146097 * 400 + (Date.ofDays (day % 146097).toNat).year < 10000) := by
  have hlt : (day % 146097).toNat < 146097 := by omega
  have hdays := (Date.days_ofDays (day % 146097).toNat).2
  have hyear : (Date.ofDays (day % 146097).toNat).year < 400 := by
    unfold Date.days Date.beforeYear at hdays
    omega
  omega

/-- The year is signed outside of these years. -/
theorem signed_printRfc3339 (ht : ¬ t.InYears) :
    ∃ c s, t.printRfc3339.toList = c :: s ∧ (c = '+' ∨ c = '-') := by
  have hday : (t.nanos + 62167219200 * 1000000000) / 1000000000 / 86400 < 0 ∨
      3652425 ≤ (t.nanos + 62167219200 * 1000000000) / 1000000000 / 86400 := by
    unfold InYears at ht
    omega
  unfold printRfc3339
  rw [if_neg ht]
  simp only [String.toList_ofList, yearText, if_neg (year_outside hday), List.cons_append]
  refine ⟨_, _, rfl, ?_⟩
  split
  · exact .inl rfl
  · exact .inr rfl

end DateTime

end WalaStack.Rust
