import Mathlib.Algebra.Ring.Nat
import Mathlib.Data.List.Basic

/-!
# The Gregorian calendar

Day 0 is the first one of year 0, a Saturday.

* `leap`, `monthDays`   the length of years and months;
* `Date`            the dates that there are;
* `Date.weekday`    the day of the week, 0 for Sunday, from the days that have gone by;
* `daysBeforeYear_eq`   **the years** in closed form.
-/

set_option linter.unusedVariables false

namespace Gregorian

def leap (y : Nat) : Prop := y % 4 = 0 ∧ y % 100 ≠ 0 ∨ y % 400 = 0

instance (y : Nat) : Decidable (leap y) := by unfold leap; infer_instance

def monthDays (y : Nat) : List Nat := [31, if leap y then 29 else 28, 31, 30, 31, 30, 31, 31, 30, 31, 30, 31]

def daysBeforeYear : (y : Nat) → Nat
  | 0 => 0
  | y + 1 => daysBeforeYear y + (monthDays y).sum

def daysBeforeMonth (y month : Nat) : Nat := ((monthDays y).take (month - 1)).sum

structure Date where
  year : Nat
  month : Nat
  day : Nat
  month_pos : 1 ≤ month
  month_le : month ≤ 12
  day_pos : 1 ≤ day
  day_le : day ≤ (monthDays year).getD (month - 1) 0

/-- the days from the first one of year 0 -/
def Date.number (d : Date) : Nat := daysBeforeYear d.year + daysBeforeMonth d.year d.month + (d.day - 1)

def Date.weekday (d : Date) : Nat := (d.number + 6) % 7

-- a Monday
example : (Date.mk 2014 5 5 (by decide) (by decide) (by decide) (by decide)).weekday = 1 := by decide +kernel

theorem monthDays_sum (y : Nat) : (monthDays y).sum = if leap y then 366 else 365 := by
  unfold monthDays
  split <;> rfl

/-- **The years** in closed form: the leap years before are counted. -/
theorem daysBeforeYear_eq (y : Nat) :
    daysBeforeYear y + (y + 99) / 100 = 365 * y + (y + 3) / 4 + (y + 399) / 400 := by
  induction y with
  | zero => rfl
  | succ y ih =>
    rw [daysBeforeYear, monthDays_sum]
    by_cases h : leap y
    · rw [if_pos h]
      unfold leap at h
      omega
    · rw [if_neg h]
      unfold leap at h
      omega

end Gregorian
