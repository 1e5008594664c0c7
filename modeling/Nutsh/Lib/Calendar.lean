/-
The proleptic Gregorian calendar.

A date is followed by the next day of its month, by the first of the next month, or by the first of the next
year; a second is followed by the next one of its minute, and so on up to the date.  The date of a day and the
moment of a second since the first of January 1970 are what so many steps from it lead to.

* `Calendar.Date.next`, `Calendar.ofDays` — the day after, and so many days after the epoch;
* `Calendar.Moment.tick`, `Calendar.ofSeconds` — the second after, and so many seconds after the epoch;
* `Calendar.ofDays_before` — days come in the order of their dates;
* `Calendar.ofSeconds_eq` — the moment of a second, by division.
-/
import Mathlib.Data.Int.Notation
import Mathlib.Logic.Function.Iterate
import Mathlib.Tactic.SplitIfs

set_option relaxedAutoImplicit false
set_option autoImplicit false

namespace Calendar

/-- A year of 366 days. -/
def isLeap (year : ℤ) : Bool := year % 4 == 0 && (year % 100 != 0 || year % 400 == 0)

def monthDays (year month : ℤ) : ℤ :=
  if month = 2 then if isLeap year then 29 else 28
  else if month = 4 ∨ month = 6 ∨ month = 9 ∨ month = 11 then 30
  else 31

structure Date where
  year : ℤ
  month : ℤ
  day : ℤ
  deriving DecidableEq

/-- The day after. -/
def Date.next (d : Date) : Date :=
  if d.day < monthDays d.year d.month then { d with day := d.day + 1 }
  else if d.month < 12 then { d with month := d.month + 1, day := 1 }
  else { year := d.year + 1, month := 1, day := 1 }

/-- The date so many days after the first of January 1970. -/
def ofDays (days : ℕ) : Date := Date.next^[days] { year := 1970, month := 1, day := 1 }

structure Moment where
  date : Date
  hour : ℕ
  minute : ℕ
  second : ℕ
  deriving DecidableEq

/-- The second after. -/
def Moment.tick (t : Moment) : Moment :=
  if t.second < 59 then { t with second := t.second + 1 }
  else if t.minute < 59 then { t with minute := t.minute + 1, second := 0 }
  else if t.hour < 23 then { t with hour := t.hour + 1, minute := 0, second := 0 }
  else { date := t.date.next, hour := 0, minute := 0, second := 0 }

/-- The moment so many seconds after the beginning of the first of January 1970. -/
def ofSeconds (secs : ℕ) : Moment :=
  Moment.tick^[secs] { date := { year := 1970, month := 1, day := 1 }, hour := 0, minute := 0, second := 0 }

@[simp] theorem ofDays_zero : ofDays 0 = { year := 1970, month := 1, day := 1 } := rfl

theorem ofDays_succ (days : ℕ) : ofDays (days + 1) = (ofDays days).next := Function.iterate_succ_apply' ..

theorem ofSeconds_succ (secs : ℕ) : ofSeconds (secs + 1) = (ofSeconds secs).tick := Function.iterate_succ_apply' ..

/-! ### Months and days -/

/-- A date that a calendar may have. -/
structure Date.Proper (d : Date) : Prop where
  month : 1 ≤ d.month ∧ d.month ≤ 12
  day : 1 ≤ d.day ∧ d.day ≤ 31

theorem monthDays_le (year month : ℤ) : monthDays year month ≤ 31 := by
  rw [monthDays]
  split_ifs <;> decide

theorem Date.Proper.next {d : Date} (h : d.Proper) : d.next.Proper := by
  have hlast := monthDays_le d.year d.month
  obtain ⟨hmonth, hday⟩ := h
  rw [Date.next]
  split_ifs with hmore hless
  · exact ⟨hmonth, by dsimp only; omega⟩
  · exact ⟨by dsimp only; omega, by dsimp only; omega⟩
  · exact ⟨by dsimp only; omega, by dsimp only; omega⟩

theorem proper_ofDays (days : ℕ) : (ofDays days).Proper := by
  induction days with
  | zero => exact ⟨by decide, by decide⟩
  | succ days ih =>
      rw [ofDays_succ]
      exact ih.next

/-! ### The order of days -/

/-- A date before another: by the year, then the month, then the day. -/
def Date.Before (d e : Date) : Prop :=
  d.year < e.year ∨ d.year = e.year ∧ (d.month < e.month ∨ d.month = e.month ∧ d.day < e.day)

theorem Date.Before.trans {d e f : Date} (h : d.Before e) (h' : e.Before f) : d.Before f := by
  rw [Date.Before] at h h' ⊢
  omega

theorem Date.before_next (d : Date) : d.Before d.next := by
  rw [Date.Before, Date.next]
  split_ifs
  · dsimp only
    omega
  · dsimp only
    omega
  · dsimp only
    omega

theorem ofDays_before {days days' : ℕ} (h : days < days') : (ofDays days).Before (ofDays days') := by
  induction days' with
  | zero => omega
  | succ n ih =>
      rw [ofDays_succ]
      by_cases heq : days = n
      · rw [heq]
        exact Date.before_next _
      · exact (ih (by omega)).trans (Date.before_next _)

theorem year_ofDays (days : ℕ) : 1970 ≤ (ofDays days).year := by
  rcases Nat.eq_zero_or_pos days with rfl | hpos
  · exact Int.le_refl 1970
  · have hbefore := ofDays_before hpos
    rw [Date.Before, ofDays_zero] at hbefore
    dsimp only at hbefore
    omega

/-! ### Moments -/

/-- **The moment of a second**: the date of its day, and the time by division. -/
theorem ofSeconds_eq (secs : ℕ) :
    ofSeconds secs =
      { date := ofDays (secs / 86400), hour := secs % 86400 / 3600, minute := secs % 86400 % 3600 / 60,
        second := secs % 86400 % 60 } := by
  induction secs with
  | zero => rfl
  | succ secs ih =>
      rw [ofSeconds_succ, ih, Moment.tick]
      dsimp only
      split_ifs with hsecond hminute hhour
      · have hday : (secs + 1) / 86400 = secs / 86400 := by omega
        rw [hday, Moment.mk.injEq]
        exact ⟨rfl, by omega, by omega, by omega⟩
      · have hday : (secs + 1) / 86400 = secs / 86400 := by omega
        rw [hday, Moment.mk.injEq]
        exact ⟨rfl, by omega, by omega, by omega⟩
      · have hday : (secs + 1) / 86400 = secs / 86400 := by omega
        rw [hday, Moment.mk.injEq]
        exact ⟨rfl, by omega, by omega, by omega⟩
      · have hday : (secs + 1) / 86400 = secs / 86400 + 1 := by omega
        rw [hday, ofDays_succ, Moment.mk.injEq]
        exact ⟨rfl, by omega, by omega, by omega⟩

end Calendar
