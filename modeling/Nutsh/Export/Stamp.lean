/-
The time in the name of an exported file.

A second since the epoch is written as `YYYYMMDD-HHMMSS` in UTC.  The date is found by arithmetic on the days
since the first of March of the year zero: an era is 400 years, and a year ends with February.

* `Export.civil`, `Export.stamp` — the date of a day, and a second as it is written;
* `Export.civil_eq_ofDays` — the arithmetic finds the day of the calendar, one day after another;
* `Export.stamp_calendar` — what is written is the calendar's date and time, and comes in the order of the seconds.
-/
import Nutsh.Lib.Calendar
import Nutsh.Lib.Digits
import Mathlib.Data.String.Basic
import Mathlib.Order.Monotone.Basic
import Mathlib.Tactic.IntervalCases

set_option relaxedAutoImplicit false
set_option autoImplicit false

namespace Nutsh.Export

/-- The Gregorian date so many days after the first of January 1970. -/
def civil (days : ℕ) : Calendar.Date :=
  let z : ℤ := days + 719468
  let era := z / 146097
  let doe := z % 146097
  let yoe := (doe - doe / 1460 + doe / 36524 - doe / 146096) / 365
  let y := yoe + era * 400
  let doy := doe - (365 * yoe + yoe / 4 - yoe / 100)
  let mp := (5 * doy + 2) / 153
  let d := doy - (153 * mp + 2) / 5 + 1
  let mo := if mp < 10 then mp + 3 else mp - 9
  let y := if mo ≤ 2 then y + 1 else y
  { year := y, month := mo, day := d }

/-- A second since the epoch, as `YYYYMMDD-HHMMSS` in UTC. -/
def stamp (secs : ℕ) : String :=
  let days := secs / 86400
  let rem := secs % 86400
  let h := rem / 3600
  let m := rem % 3600 / 60
  let s := rem % 60
  let date := civil days
  String.ofList (Digits.ofInt 4 date.year ++ (Digits.ofInt 2 date.month ++ (Digits.ofInt 2 date.day ++
    '-' :: (Digits.ofNat 2 h ++ (Digits.ofNat 2 m ++ Digits.ofNat 2 s)))))

/-! ### Years from the first of March -/

/-- The days from the first of March of the year zero to the first of March of a year. -/
def marchOf (y : ℤ) : ℤ := 365 * y + y / 4 - y / 100 + y / 400

theorem marchOf_era (yoe era : ℤ) : marchOf (yoe + era * 400) = marchOf yoe + 146097 * era := by
  rw [marchOf, marchOf]
  omega

theorem marchOf_lt_succ (y : ℤ) : marchOf y + 365 ≤ marchOf (y + 1) ∧ marchOf (y + 1) ≤ marchOf y + 366 := by
  rw [marchOf, marchOf]
  omega

theorem yoe_spec {doe yoe : ℤ} (hdoe : 0 ≤ doe ∧ doe < 146097)
    (hyoe : yoe = (doe - doe / 1460 + doe / 36524 - doe / 146096) / 365) :
    marchOf yoe ≤ doe ∧ doe < marchOf (yoe + 1) := by
  by_cases hlast : doe = 146096
  · subst hlast hyoe
    decide
  · have hday : doe / 146096 = 0 := by omega
    obtain ⟨century, hcentury⟩ : ∃ century, doe / 36524 = century := ⟨_, rfl⟩
    rw [hday, hcentury] at hyoe
    have hcases : century = 0 ∨ century = 1 ∨ century = 2 ∨ century = 3 := by omega
    have h100 : yoe / 100 = century := by omega
    have h400 : yoe / 400 = 0 := by omega
    rw [marchOf, marchOf]
    refine ⟨by omega, ?_⟩
    by_cases hend : yoe % 100 = 99
    · omega
    · have hnext : (yoe + 1) / 100 = century := by omega
      have hquad : (yoe + 1) / 400 = 0 := by omega
      omega
theorem marchOf_mono {y y' : ℤ} (h : y ≤ y') : marchOf y ≤ marchOf y' := by
  rw [marchOf, marchOf]
  omega

theorem march_unique {z y y' : ℤ} (h : marchOf y ≤ z) (h' : z < marchOf (y + 1)) (k : marchOf y' ≤ z)
    (k' : z < marchOf (y' + 1)) : y = y' := by
  rcases lt_trichotomy y y' with hlt | heq | hgt
  · have := marchOf_mono (by omega : y + 1 ≤ y')
    omega
  · exact heq
  · have := marchOf_mono (by omega : y' + 1 ≤ y)
    omega

/-- The year and the day of it, from the first of March, as a date. -/
def ofMarch (y doy : ℤ) : Calendar.Date :=
  let mp := (5 * doy + 2) / 153
  let d := doy - (153 * mp + 2) / 5 + 1
  let mo := if mp < 10 then mp + 3 else mp - 9
  { year := if mo ≤ 2 then y + 1 else y, month := mo, day := d }

theorem civil_eq (days : ℕ) :
    ∃ y, marchOf y ≤ days + 719468 ∧ days + 719468 < marchOf (y + 1) ∧
      civil days = ofMarch y (days + 719468 - marchOf y) := by
  obtain ⟨z, hz⟩ : ∃ z : ℤ, (days : ℤ) + 719468 = z := ⟨_, rfl⟩
  obtain ⟨doe, hdoe⟩ : ∃ doe, z % 146097 = doe := ⟨_, rfl⟩
  obtain ⟨era, hera⟩ : ∃ era, z / 146097 = era := ⟨_, rfl⟩
  obtain ⟨yoe, hyoe⟩ : ∃ yoe, (doe - doe / 1460 + doe / 36524 - doe / 146096) / 365 = yoe := ⟨_, rfl⟩
  have hspec := yoe_spec (by omega : 0 ≤ doe ∧ doe < 146097) hyoe.symm
  have hbase := marchOf_era yoe era
  have hnext : marchOf (yoe + era * 400 + 1) = marchOf (yoe + 1) + 146097 * era := by
    rw [← marchOf_era, add_right_comm]
  refine ⟨yoe + era * 400, by omega, by omega, ?_⟩
  have hdoy : doe - (365 * yoe + yoe / 4 - yoe / 100) = z - marchOf (yoe + era * 400) := by
    rw [hbase, marchOf]
    omega
  rw [civil, hz]
  rw [hdoe, hera, hyoe, hdoy, ofMarch]

/-! ### Months from March -/

/-- The days before a month, from March on. -/
def beforeMonth (mp : ℤ) : ℤ := (153 * mp + 2) / 5

/-- The number of a month, from March on. -/
def monthOf (mp : ℤ) : ℤ := if mp < 10 then mp + 3 else mp - 9

theorem ofMarch_eq {y doy mp : ℤ} (h : beforeMonth mp ≤ doy) (h' : doy < beforeMonth (mp + 1)) :
    ofMarch y doy =
      { year := if monthOf mp ≤ 2 then y + 1 else y, month := monthOf mp, day := doy - beforeMonth mp + 1 } := by
  have hmp : (5 * doy + 2) / 153 = mp := by
    rw [beforeMonth] at h h'
    omega
  rw [ofMarch, hmp, monthOf, beforeMonth]

theorem monthDays_monthOf {mp : ℤ} (year : ℤ) (h : 0 ≤ mp ∧ mp < 11) :
    Calendar.monthDays year (monthOf mp) = beforeMonth (mp + 1) - beforeMonth mp := by
  obtain ⟨hfrom, huntil⟩ := h
  interval_cases mp <;> rfl

theorem monthDays_february (y : ℤ) : Calendar.monthDays (y + 1) 2 = marchOf (y + 1) - marchOf y - 337 := by
  rw [Calendar.monthDays, if_pos rfl, marchOf, marchOf]
  split
  · rename_i hleap
    simp only [Calendar.isLeap, Bool.and_eq_true, Bool.or_eq_true, beq_iff_eq, bne_iff_ne] at hleap
    omega
  · rename_i hleap
    simp only [Calendar.isLeap, Bool.and_eq_true, Bool.or_eq_true, beq_iff_eq, bne_iff_ne] at hleap
    omega

theorem exists_month {doy : ℤ} (hdoy : 0 ≤ doy ∧ doy < 366) :
    ∃ mp, 0 ≤ mp ∧ mp ≤ 11 ∧ beforeMonth mp ≤ doy ∧ doy < beforeMonth (mp + 1) := by
  refine ⟨(5 * doy + 2) / 153, by omega, by omega, ?_, ?_⟩
  · rw [beforeMonth]
    omega
  · rw [beforeMonth]
    omega

/-! ### One day after another -/

theorem ofMarch_next {y doy : ℤ} (hdoy : 0 ≤ doy) (h : doy + 1 < marchOf (y + 1) - marchOf y) :
    (ofMarch y doy).next = ofMarch y (doy + 1) := by
  have hyear := marchOf_lt_succ y
  obtain ⟨mp, hfirst, hlast, hfrom, huntil⟩ := exists_month (by omega : 0 ≤ doy ∧ doy < 366)
  rw [ofMarch_eq hfrom huntil, Calendar.Date.next]
  dsimp only
  rcases eq_or_lt_of_le hlast with rfl | hless
  · -- in February, which ends the year
    have hdays := monthDays_february y
    have hbefore : beforeMonth 11 = 337 := rfl
    have hend : beforeMonth (11 + 1) = 367 := rfl
    have hmonth : monthOf 11 = 2 := rfl
    rw [ofMarch_eq (by omega : beforeMonth 11 ≤ doy + 1) (by omega), hmonth, if_pos (le_refl 2),
      if_pos (by omega), add_right_comm]
    congr 1
    omega
  · rw [monthDays_monthOf _ ⟨hfirst, hless⟩]
    by_cases hmore : doy + 1 < beforeMonth (mp + 1)
    · rw [ofMarch_eq (by omega : beforeMonth mp ≤ doy + 1) hmore, if_pos (by omega)]
      congr 1
      omega
    · have hmonth : doy + 1 = beforeMonth (mp + 1) := by omega
      rw [ofMarch_eq (by omega : beforeMonth (mp + 1) ≤ doy + 1) (by rw [hmonth, beforeMonth, beforeMonth]; omega),
        if_neg (by omega), hmonth, sub_self]
      interval_cases mp <;> rfl

theorem ofMarch_last {y doy : ℤ} (h : doy + 1 = marchOf (y + 1) - marchOf y) :
    (ofMarch y doy).next = ofMarch (y + 1) 0 := by
  have hyear := marchOf_lt_succ y
  have hdays := monthDays_february y
  have hbefore : beforeMonth 11 = 337 := rfl
  have hend : beforeMonth (11 + 1) = 367 := rfl
  have hmonth : monthOf 11 = 2 := rfl
  rw [ofMarch_eq (by omega : beforeMonth 11 ≤ doy) (by omega), ofMarch_eq (by decide : beforeMonth 0 ≤ 0) (by decide),
    Calendar.Date.next, hmonth]
  dsimp only
  rw [if_pos (le_refl 2), if_neg (by omega), if_pos (by decide)]
  rfl

theorem civil_succ (days : ℕ) : civil (days + 1) = (civil days).next := by
  obtain ⟨y, hfrom, huntil, hcivil⟩ := civil_eq days
  obtain ⟨y', hfrom', huntil', hcivil'⟩ := civil_eq (days + 1)
  push_cast at hfrom' huntil' hcivil'
  rw [hcivil, hcivil']
  by_cases hmore : (days : ℤ) + 719468 + 1 < marchOf (y + 1)
  · have hy : y' = y := march_unique hfrom' huntil' (by omega) (by omega)
    rw [hy, ofMarch_next (by omega) (by omega)]
    congr 1
    omega
  · have hy : y' = y + 1 := by
      have hyear := marchOf_lt_succ (y + 1)
      exact march_unique hfrom' huntil' (by omega) (by omega)
    rw [hy, ofMarch_last (by omega)]
    congr 1
    omega

theorem civil_eq_ofDays (days : ℕ) : civil days = Calendar.ofDays days := by
  induction days with
  | zero => decide
  | succ days ih => rw [civil_succ, ih, Calendar.ofDays_succ]

/-! ### What is written -/

/-- The eight digits of a date. -/
def dateText (d : Calendar.Date) : List Char :=
  Digits.ofInt 4 d.year ++ (Digits.ofInt 2 d.month ++ Digits.ofInt 2 d.day)

/-- The six digits of a time. -/
def timeText (t : Calendar.Moment) : List Char :=
  Digits.ofNat 2 t.hour ++ (Digits.ofNat 2 t.minute ++ Digits.ofNat 2 t.second)

/-- A moment of the calendar, as `YYYYMMDD-HHMMSS`. -/
def momentText (t : Calendar.Moment) : String := String.ofList (dateText t.date ++ '-' :: timeText t)

theorem stamp_eq (secs : ℕ) : stamp secs = momentText (Calendar.ofSeconds secs) := by
  rw [stamp, civil_eq_ofDays, momentText, Calendar.ofSeconds_eq, dateText, timeText]
  simp only [List.append_assoc]

/-- A date whose fields fit their digits. -/
structure Written (d : Calendar.Date) : Prop where
  year : 0 ≤ d.year ∧ d.year.natAbs < 10 ^ 4
  month : 0 ≤ d.month ∧ d.month.natAbs < 10 ^ 2
  day : 0 ≤ d.day ∧ d.day.natAbs < 10 ^ 2

theorem written_ofDays {days : ℕ} (h : (Calendar.ofDays days).year ≤ 9999) : Written (Calendar.ofDays days) := by
  have hyear := Calendar.year_ofDays days
  obtain ⟨hmonth, hday⟩ := Calendar.proper_ofDays days
  exact ⟨by omega, by omega, by omega⟩

theorem length_dateText {d : Calendar.Date} (h : Written d) : (dateText d).length = 8 := by
  rw [dateText, List.length_append, List.length_append, Digits.length_ofInt (by decide) h.year.1 h.year.2,
    Digits.length_ofInt (by decide) h.month.1 h.month.2, Digits.length_ofInt (by decide) h.day.1 h.day.2]

theorem dateText_lt {d e : Calendar.Date} (hd : Written d) (he : Written e) (h : d.Before e) :
    dateText d < dateText e := by
  obtain ⟨hyear, hyearLt⟩ := Digits.ofInt_lt_iff (by decide) hd.year he.year
  obtain ⟨hmonth, hmonthLt⟩ := Digits.ofInt_lt_iff (by decide) hd.month he.month
  have hday := (Digits.ofInt_lt_iff (by decide) hd.day he.day).2
  rw [dateText, dateText, Digits.append_lt_append_iff (by
      rw [Digits.length_ofInt (by decide) hd.year.1 hd.year.2, Digits.length_ofInt (by decide) he.year.1 he.year.2]),
    Digits.append_lt_append_iff (by
      rw [Digits.length_ofInt (by decide) hd.month.1 hd.month.2,
        Digits.length_ofInt (by decide) he.month.1 he.month.2]), hyear, hyearLt, hmonth, hmonthLt, hday]
  exact h

/-- A time whose fields fit their digits. -/
def Timed (t : Calendar.Moment) : Prop := t.hour < 10 ^ 2 ∧ t.minute < 10 ^ 2 ∧ t.second < 10 ^ 2

theorem timeText_lt {t u : Calendar.Moment} (ht : Timed t) (hu : Timed u)
    (h : t.hour < u.hour ∨ t.hour = u.hour ∧ (t.minute < u.minute ∨ t.minute = u.minute ∧ t.second < u.second)) :
    timeText t < timeText u := by
  obtain ⟨hthour, htminute, htsecond⟩ := ht
  obtain ⟨huhour, huminute, husecond⟩ := hu
  obtain ⟨hhour, hhourLt⟩ := Digits.ofNat_lt_iff (by decide) hthour huhour
  obtain ⟨hminute, hminuteLt⟩ := Digits.ofNat_lt_iff (by decide) htminute huminute
  have hsecond := (Digits.ofNat_lt_iff (by decide) htsecond husecond).2
  rw [timeText, timeText, Digits.append_lt_append_iff (by
      rw [Digits.length_ofNat (by decide) hthour, Digits.length_ofNat (by decide) huhour]),
    Digits.append_lt_append_iff (by
      rw [Digits.length_ofNat (by decide) htminute, Digits.length_ofNat (by decide) huminute]), hhour, hhourLt,
    hminute, hminuteLt, hsecond]
  exact h

theorem stamp_lt {secs later : ℕ} (h : secs < later) (hyear : (Calendar.ofSeconds secs).date.year ≤ 9999)
    (hyear' : (Calendar.ofSeconds later).date.year ≤ 9999) : stamp secs < stamp later := by
  rw [Calendar.ofSeconds_eq] at hyear hyear'
  have hd := written_ofDays hyear
  have he := written_ofDays hyear'
  rw [stamp_eq, stamp_eq, momentText, momentText, Calendar.ofSeconds_eq, Calendar.ofSeconds_eq,
    String.lt_iff_toList_lt, String.toList_ofList, String.toList_ofList,
    Digits.append_lt_append_iff ((length_dateText hd).trans (length_dateText he).symm)]
  rcases Nat.lt_or_ge (secs / 86400) (later / 86400) with hday | hday
  · exact .inl (dateText_lt hd he (Calendar.ofDays_before hday))
  · -- the same day, at a later time
    have hsame : secs / 86400 = later / 86400 := by omega
    refine .inr ⟨by rw [hsame], List.cons_lt_cons_iff.2 (.inr ⟨rfl, ?_⟩)⟩
    exact timeText_lt (by rw [Timed]; dsimp only; omega) (by rw [Timed]; dsimp only; omega) (by dsimp only; omega)

/-- **A second is written as the calendar has it**, and the text comes in the order of the seconds. -/
theorem stamp_calendar (secs : ℕ) :
    stamp secs = momentText (Calendar.ofSeconds secs) ∧
      ∀ later, (Calendar.ofSeconds secs).date.year ≤ 9999 → (Calendar.ofSeconds later).date.year ≤ 9999 →
        (stamp secs = stamp later ↔ secs = later) ∧ (stamp secs < stamp later ↔ secs < later) := by
  refine ⟨stamp_eq secs, fun later hyear hyear' => ?_⟩
  rcases lt_trichotomy secs later with hlt | heq | hgt
  · have hstamp := stamp_lt hlt hyear hyear'
    exact ⟨iff_of_false hstamp.ne hlt.ne, iff_of_true hstamp hlt⟩
  · rw [heq]
    exact ⟨iff_of_true rfl rfl, iff_of_false (lt_irrefl _) (lt_irrefl _)⟩
  · have hstamp := stamp_lt hgt hyear' hyear
    exact ⟨iff_of_false hstamp.ne' hgt.ne', iff_of_false hstamp.asymm hgt.asymm⟩

theorem stamp_calendar_leap :
    stamp 951868799 = momentText (Calendar.ofSeconds 951868799) ∧ stamp 951868799 = "20000229-235959" ∧
      stamp 951868799 < stamp 951868800 := by
  have hyear (secs : ℕ) (h : (civil (secs / 86400)).year ≤ 9999) : (Calendar.ofSeconds secs).date.year ≤ 9999 := by
    rw [Calendar.ofSeconds_eq, ← civil_eq_ofDays]
    exact h
  have h := stamp_calendar 951868799
  exact ⟨h.1, by decide, (h.2 951868800 (hyear _ (by decide)) (hyear _ (by decide))).2.2 (by decide)⟩

end Nutsh.Export
