import Mathlib

/-!
# Months of the calendar

Days are counted from the first of January 1970, and months through the years:
month `12 * y + m` is month `m` of the year `y`, with January as month 0. The
year is taken to begin in March, so the leap day is its last and the days
before a month do not depend on it.

The month of a day is found from the length of a month on the average, which
is never off by more than one.
-/

namespace Explorer.Lib

/-- The first day of a month. -/
def firstDay (month : Int) : Int :=
  let year := (month - 2) / 12
  365 * year + year / 4 - year / 100 + year / 400 +
    (153 * ((month - 2) % 12) + 2) / 5 - 719468

example : firstDay (12 * 1970) = 0 := by decide
example : firstDay (12 * 2000 + 2) - firstDay (12 * 2000 + 1) = 29 := by decide
example : firstDay (12 * 1900 + 2) - firstDay (12 * 1900 + 1) = 28 := by decide

/-- A month has 28 days at least, and 31 at most. -/
theorem firstDay_succ (month : Int) :
    firstDay month + 28 ≤ firstDay (month + 1) ∧
      firstDay (month + 1) ≤ firstDay month + 31 := by
  unfold firstDay
  simp only
  rw [show month + 1 - 2 = month - 2 + 1 by omega]
  generalize month - 2 = q
  by_cases hlast : q % 12 = 11
  · -- the leap day, if the year has one
    have hyear : (q + 1) / 12 = q / 12 + 1 := by omega
    have hmonth : (q + 1) % 12 = 0 := by omega
    rw [hyear, hmonth, hlast]
    generalize q / 12 = y
    omega
  · have hyear : (q + 1) / 12 = q / 12 := by omega
    have hmonth : (q + 1) % 12 = q % 12 + 1 := by omega
    rw [hyear, hmonth]
    generalize q / 12 = y
    omega

theorem firstDay_strictMono : StrictMono firstDay :=
  strictMono_int_of_lt_succ fun month => by
    have := (firstDay_succ month).1
    omega

/-- Four hundred years are 4800 months and 146097 days. -/
theorem firstDay_average (month : Int) :
    146097 * (month - 2) - 10800 ≤ 4800 * (firstDay month + 719468) ∧
      4800 * (firstDay month + 719468) ≤ 146097 * (month - 2) + 19200 := by
  unfold firstDay
  simp only
  generalize month - 2 = q
  have hq : q = 12 * (q / 12) + q % 12 := by omega
  have hlow : 0 ≤ q % 12 := by omega
  have hhigh : q % 12 < 12 := by omega
  generalize q / 12 = y at *
  generalize q % 12 = m at *
  omega

/-- The month of a day. -/
def monthOf (day : Int) : Int :=
  let month := (day + 719468) * 4800 / 146097 + 2
  if firstDay (month + 1) ≤ day then month + 1
  else if firstDay month ≤ day then month
  else month - 1

example : monthOf 0 = 12 * 1970 := by decide
example : monthOf (-1) = 12 * 1969 + 11 := by decide

theorem monthOf_spec (day : Int) :
    firstDay (monthOf day) ≤ day ∧ day < firstDay (monthOf day + 1) := by
  unfold monthOf
  simp only
  generalize hmonth : (day + 719468) * 4800 / 146097 + 2 = month
  have hbefore := firstDay_average (month - 1)
  have hafter := firstDay_average (month + 2)
  split
  · next hle =>
      refine ⟨hle, ?_⟩
      rw [show month + 1 + 1 = month + 2 by omega]
      omega
  · split
    · next hlt hle => exact ⟨hle, by omega⟩
    · next hlt hle =>
        refine ⟨by omega, ?_⟩
        rw [show month - 1 + 1 = month by omega]
        omega

/-- There is no other month it could be. -/
theorem monthOf_eq {day month : Int} (hle : firstDay month ≤ day)
    (hlt : day < firstDay (month + 1)) : monthOf day = month := by
  obtain ⟨hle', hlt'⟩ := monthOf_spec day
  have h1 : month < monthOf day + 1 :=
    firstDay_strictMono.lt_iff_lt.mp (by omega)
  have h2 : monthOf day < month + 1 :=
    firstDay_strictMono.lt_iff_lt.mp (by omega)
  omega

theorem lt_firstDay_iff {day month : Int} :
    day < firstDay month ↔ monthOf day < month := by
  obtain ⟨hle, hlt⟩ := monthOf_spec day
  constructor
  · intro h
    exact firstDay_strictMono.lt_iff_lt.mp (by omega)
  · intro h
    have := firstDay_strictMono.monotone (show monthOf day + 1 ≤ month by omega)
    omega

end Explorer.Lib
