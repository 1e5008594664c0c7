/-
Dates and times as RFC 3339 writes them.

A date and a time of day, with a fraction of a second if need be, and how far the clock they are read off is
ahead of UTC.  A text is read to the nanoseconds it is away from the beginning of 1970.  A moment of the
calendar is written with whole seconds and in UTC, and read back as the seconds it was of.

* `Calendar.Date.days`, `Calendar.days_ofDays` — the number of a day, and that it is the days since 1970;
* `Rfc3339.read`, `Rfc3339.write` — a text read, and a moment written;
* `Rfc3339.read_written` — a second is read back as it was written.
-/
import Nutsh.Lib.Calendar
import Nutsh.Lib.Digits
import Mathlib.Data.String.Basic
import Mathlib.Tactic.IntervalCases

set_option relaxedAutoImplicit false
set_option autoImplicit false

namespace Calendar

/-! ### The number of a day -/

/-- The days from the first of January 1970, a year being counted from its first of March. -/
def Date.days (d : Date) : ℤ :=
  let y := if d.month ≤ 2 then d.year - 1 else d.year
  let mp := if d.month ≤ 2 then d.month + 9 else d.month - 3
  365 * y + y / 4 - y / 100 + y / 400 + (153 * mp + 2) / 5 + d.day - 719469

theorem monthDays_pos (year month : ℤ) : 28 ≤ monthDays year month := by
  rw [monthDays]
  split_ifs <;> decide

theorem day_le_monthDays (days : ℕ) :
    (ofDays days).day ≤ monthDays (ofDays days).year (ofDays days).month := by
  induction days with
  | zero => decide
  | succ days ih =>
      rw [ofDays_succ, Date.next]
      split_ifs with hmore
      · dsimp only
        omega
      · have := monthDays_pos (ofDays days).year ((ofDays days).month + 1)
        dsimp only
        omega
      · have := monthDays_pos ((ofDays days).year + 1) 1
        dsimp only
        omega

theorem isLeap_iff (year : ℤ) : isLeap year = true ↔ year % 4 = 0 ∧ (year % 100 ≠ 0 ∨ year % 400 = 0) := by
  simp [isLeap]

/-- The days of a month, from the count of the days before it, February apart. -/
theorem monthDays_eq (year : ℤ) {m : ℤ} (h : 0 ≤ m ∧ m < 11) :
    monthDays year (if m < 10 then m + 3 else m - 9) =
      (153 * (m + 1) + 2) / 5 - (153 * m + 2) / 5 := by
  obtain ⟨hfirst, hlast⟩ := h
  interval_cases m <;> rfl

theorem days_next {d : Date} (h : d.Proper) (hday : d.day ≤ monthDays d.year d.month) :
    d.next.days = d.days + 1 := by
  obtain ⟨⟨hfirst, hlast⟩, -⟩ := h
  obtain ⟨year, month, day⟩ := d
  dsimp only at hfirst hlast hday
  rw [Date.next]
  split_ifs with hmore hless
  · simp only [Date.days]
    omega
  · -- the last day of a month but December
    have hend : day = monthDays year month := by
      dsimp only at hmore
      omega
    dsimp only at hless
    rw [hend]
    rcases Int.lt_trichotomy month 2 with hjanuary | rfl | hlater
    · have hmonth := monthDays_eq (m := month + 9) year (by omega)
      rw [if_neg (by omega), add_sub_cancel_right] at hmonth
      simp only [Date.days, if_pos (by omega : month ≤ 2), if_pos (by omega : month + 1 ≤ 2), hmonth]
      omega
    · -- from February on it is the next year
      simp only [Date.days, monthDays, isLeap_iff]
      norm_num
      split_ifs <;> omega
    · have hmonth := monthDays_eq (m := month - 3) year (by omega)
      rw [if_pos (by omega), sub_add_cancel] at hmonth
      simp only [Date.days, if_neg (by omega : ¬ month ≤ 2), if_neg (by omega : ¬ month + 1 ≤ 2), hmonth]
      omega
  · have hdecember : month = 12 := by
      dsimp only at hless
      omega
    have hend : day = monthDays year month := by
      dsimp only at hmore
      omega
    have hmonth : monthDays year 12 = 31 := rfl
    rw [hend, hdecember, hmonth]
    simp only [Date.days]
    norm_num
    omega

/-- **The number of a day** is the days that lead to it. -/
theorem days_ofDays (days : ℕ) : (ofDays days).days = days := by
  induction days with
  | zero => decide
  | succ days ih =>
      rw [ofDays_succ, days_next (proper_ofDays days) (day_le_monthDays days), ih, Nat.cast_succ]

end Calendar

namespace Rfc3339

open Calendar

/-! ### Reading -/

/-- Digits as many as fit, and what follows them. -/
def field (fits : ℕ → Bool) (cs : List Char) : Option (ℕ × List Char) :=
  let ds := cs.takeWhile Char.isDigit
  if fits ds.length then some (Nat.ofDigitChars 10 ds 0, cs.dropWhile Char.isDigit) else none

def skip (c : Char) : List Char → Option (List Char)
  | [] => none
  | d :: cs => if d = c then some cs else none

/-- The nanoseconds of a fraction of a second, if there is one; what is behind the ninth digit is left off. -/
def fraction : List Char → Option (ℕ × List Char)
  | '.' :: cs =>
      let ds := cs.takeWhile Char.isDigit
      if ds.isEmpty then none
      else
        some (Nat.ofDigitChars 10 ((ds ++ List.replicate 9 '0').take 9) 0, cs.dropWhile Char.isDigit)
  | cs => some (0, cs)

/-- The seconds a clock is ahead of UTC. -/
def offset : List Char → Option ℤ
  | ['Z'] => some 0
  | sign :: cs => do
      let (hour, cs) ← field (· == 2) cs
      let cs ← skip ':' cs
      let (minute, cs) ← field (· == 2) cs
      let ahead : ℤ := hour * 3600 + minute * 60
      if cs ≠ [] ∨ 24 ≤ hour ∨ 60 ≤ minute then none
      else if sign = '+' then some ahead
      else if sign = '-' then some (-ahead)
      else none
  | [] => none

/-- A date that the calendar has, and what follows it. -/
def readDate (cs : List Char) : Option (Date × List Char) := do
  let (year, cs) ← field (4 ≤ ·) cs
  let cs ← skip '-' cs
  let (month, cs) ← field (· == 2) cs
  let cs ← skip '-' cs
  let (day, cs) ← field (· == 2) cs
  if 0 < month ∧ month ≤ 12 ∧ 0 < day ∧ day ≤ monthDays year month then some ({ year, month, day }, cs) else none

/-- The second of a day, and what follows it. -/
def readTime (cs : List Char) : Option (ℕ × List Char) := do
  let (hour, cs) ← field (· == 2) cs
  let cs ← skip ':' cs
  let (minute, cs) ← field (· == 2) cs
  let cs ← skip ':' cs
  let (second, cs) ← field (· == 2) cs
  if hour < 24 ∧ minute < 60 ∧ second < 60 then some (hour * 3600 + minute * 60 + second, cs) else none

/-- The nanoseconds since the beginning of 1970. -/
def read (s : String) : Option ℤ := do
  let (date, cs) ← readDate s.toList
  let cs ← skip 'T' cs
  let (second, cs) ← readTime cs
  let (nanos, cs) ← fraction cs
  let ahead ← offset cs
  return (date.days * 86400 + second - ahead) * 10 ^ 9 + nanos

/-! ### Writing -/

/-- A moment with whole seconds, in UTC. -/
def write (t : Moment) : List Char :=
  Digits.ofInt 4 t.date.year ++ '-' :: (Digits.ofInt 2 t.date.month ++ '-' :: (Digits.ofInt 2 t.date.day ++
    'T' :: (Digits.ofNat 2 t.hour ++ ':' :: (Digits.ofNat 2 t.minute ++ ':' :: (Digits.ofNat 2 t.second ++
      ['Z'])))))

/-! ### What was written, read -/

theorem isDigit_of_mem_ofNat {width n : ℕ} {c : Char} (h : c ∈ Digits.ofNat width n) : c.isDigit = true := by
  rw [Digits.ofNat] at h
  rcases List.mem_append.1 h with h | h
  · rw [List.eq_of_mem_replicate h]
    decide
  · exact Nat.isDigit_of_mem_toDigits (by decide) (by decide) h

theorem ofDigitChars_ofNat (width n : ℕ) : Nat.ofDigitChars 10 (Digits.ofNat width n) 0 = n := by
  rw [Digits.ofNat, Nat.ofDigitChars_append, Nat.ofDigitChars_replicate_zero, Nat.mul_zero,
    Nat.ofDigitChars_ten_toDigits]

/-- A number is read where it ends. -/
theorem field_ofNat {f : ℕ → Bool} {width n : ℕ} (hf : f (Digits.ofNat width n).length = true)
    {c : Char} (hc : c.isDigit = false) (rest : List Char) :
    field f (Digits.ofNat width n ++ c :: rest) = some (n, c :: rest) := by
  have hall : ∀ d ∈ Digits.ofNat width n, d.isDigit = true := fun d hd => isDigit_of_mem_ofNat hd
  have htake : (Digits.ofNat width n ++ c :: rest).takeWhile Char.isDigit = Digits.ofNat width n := by
    rw [List.takeWhile_append_of_pos hall, List.takeWhile_cons, if_neg (by simp [hc]), List.append_nil]
  have hdrop : (Digits.ofNat width n ++ c :: rest).dropWhile Char.isDigit = c :: rest := by
    rw [List.dropWhile_append_of_pos hall, List.dropWhile_cons, if_neg (by simp [hc])]
  rw [field, htake, hdrop, if_pos hf, ofDigitChars_ofNat]

theorem field_two {n : ℕ} (h : n < 100) {c : Char} (hc : c.isDigit = false) (rest : List Char) :
    field (· == 2) (Digits.ofNat 2 n ++ c :: rest) = some (n, c :: rest) :=
  field_ofNat (by rw [Digits.length_ofNat (by decide) (by omega)]; rfl) hc rest

theorem skip_self (c : Char) (cs : List Char) : skip c (c :: cs) = some cs := if_pos rfl

theorem le_length_ofNat (width n : ℕ) : width ≤ (Digits.ofNat width n).length := by
  rw [Digits.ofNat, List.length_append, List.length_replicate]
  omega

theorem readDate_ofNat {year month day : ℕ} (hmonth : 0 < month ∧ month ≤ 12)
    (hday : 0 < day ∧ day ≤ monthDays year month) {c : Char} (hc : c.isDigit = false) (rest : List Char) :
    readDate (Digits.ofNat 4 year ++ '-' :: (Digits.ofNat 2 month ++ '-' :: (Digits.ofNat 2 day ++ c :: rest))) =
      some ({ year, month, day }, c :: rest) := by
  have hlong := monthDays_le year month
  have hyear := field_ofNat (f := (4 ≤ ·)) (decide_eq_true (le_length_ofNat 4 year))
    (by decide : '-'.isDigit = false)
  rw [readDate]
  simp only [hyear, skip_self, field_two (by omega : month < 100) (by decide : '-'.isDigit = false),
    field_two (by omega : day < 100) hc, Option.bind_eq_bind, Option.bind_some]
  exact if_pos ⟨hmonth.1, hmonth.2, hday⟩

theorem readTime_ofNat {hour minute second : ℕ} (hhour : hour < 24) (hminute : minute < 60) (hsecond : second < 60)
    {c : Char} (hc : c.isDigit = false) (rest : List Char) :
    readTime (Digits.ofNat 2 hour ++ ':' :: (Digits.ofNat 2 minute ++ ':' :: (Digits.ofNat 2 second ++ c :: rest))) =
      some (hour * 3600 + minute * 60 + second, c :: rest) := by
  rw [readTime]
  simp only [skip_self, field_two (by omega : hour < 100) (by decide : ':'.isDigit = false),
    field_two (by omega : minute < 100) (by decide : ':'.isDigit = false),
    field_two (by omega : second < 100) hc, Option.bind_eq_bind, Option.bind_some]
  exact if_pos ⟨hhour, hminute, hsecond⟩

/-- **A second is read back** as it was written. -/
theorem read_written (secs : ℕ) :
    read (String.ofList (write (ofSeconds secs))) = some ((secs : ℤ) * 10 ^ 9) := by
  obtain ⟨⟨hmonth, hmonth'⟩, hday, hday'⟩ := proper_ofDays (secs / 86400)
  have hlast := day_le_monthDays (secs / 86400)
  have hyear := year_ofDays (secs / 86400)
  have hdays := days_ofDays (secs / 86400)
  rw [ofSeconds_eq, write]
  generalize ofDays (secs / 86400) = date at *
  obtain ⟨year, month, day⟩ := date
  dsimp only at *
  lift year to ℕ using by omega
  lift month to ℕ using by omega
  lift day to ℕ using by omega
  rw [Digits.ofInt_of_nonneg _ (by omega), Digits.ofInt_of_nonneg _ (by omega), Digits.ofInt_of_nonneg _ (by omega),
    Int.natAbs_natCast, Int.natAbs_natCast, Int.natAbs_natCast, read, String.toList_ofList,
    readDate_ofNat (by omega) (by omega) (by decide)]
  have htime := readTime_ofNat (by omega : secs % 86400 / 3600 < 24) (by omega : secs % 86400 % 3600 / 60 < 60)
    (by omega : secs % 86400 % 60 < 60) (by decide : 'Z'.isDigit = false) []
  simp only [Option.bind_eq_bind, Option.bind_some, skip_self, htime, fraction, offset, hdays]
  refine congrArg some ?_
  rw [Nat.cast_zero, add_zero, sub_zero]
  refine congrArg (· * 10 ^ 9) ?_
  omega

end Rfc3339
