/-
The months of UTC.

A time is a number of milliseconds since 1970, and the months are numbered from January 1970.
Every time is in one month, which `monthOf` finds.
-/
import Mathlib.Data.Nat.Find
import Mathlib.Tactic.Common

namespace Js
namespace Months

/-- Milliseconds of a day. -/
def msPerDay : Nat := 86400000

def isLeap (year : Nat) : Bool := year % 4 = 0 && (year % 100 ≠ 0 || year % 400 = 0)

def yearOf (month : Nat) : Nat := 1970 + month / 12

/-- The month of the year, from 0. -/
def monthOfYear (month : Nat) : Nat := month % 12

def daysIn (month : Nat) : Nat :=
  match monthOfYear month with
  | 1 => if isLeap (yearOf month) then 29 else 28
  | 3 | 5 | 8 | 10 => 30
  | _ => 31

/-- The first millisecond of a month. -/
def start : Nat → Nat
  | 0 => 0
  | month + 1 => start month + daysIn month * msPerDay

theorem le_daysIn (month : Nat) : 28 ≤ daysIn month := by
  unfold daysIn
  split
  · split <;> omega
  all_goals omega

theorem le_start (month : Nat) : month * (28 * msPerDay) ≤ start month := by
  induction month with
  | zero => exact Nat.le_refl 0
  | succ month ih =>
    have hdays := Nat.mul_le_mul_right msPerDay (le_daysIn month)
    rw [start, Nat.succ_mul]
    omega

theorem start_mono {month later : Nat} (h : month ≤ later) : start month ≤ start later := by
  induction h with
  | refl => exact Nat.le_refl _
  | step _ ih => exact Nat.le_trans ih (Nat.le_add_right _ _)

/-- The month a time is in. -/
def monthOf (time : Nat) : Nat :=
  Nat.findGreatest (fun month => start month ≤ time) (time / (28 * msPerDay))

theorem start_monthOf_le (time : Nat) : start (monthOf time) ≤ time :=
  Nat.findGreatest_spec (P := fun month => start month ≤ time) (Nat.zero_le _) (Nat.zero_le time)

theorem lt_start_monthOf_succ (time : Nat) : time < start (monthOf time + 1) := by
  by_contra h
  have hle := Nat.not_lt.mp h
  refine Nat.findGreatest_is_greatest (P := fun month => start month ≤ time) (Nat.lt_succ_self _)
    ?_ hle
  rw [Nat.le_div_iff_mul_le (by decide)]
  exact Nat.le_trans (le_start _) hle

/-- August 2026. -/
example : start 679 = 1785542400000 ∧ monthOf 1785542400000 = 679 := by decide +kernel

end Months
end Js
