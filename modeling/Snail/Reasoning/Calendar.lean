import Mathlib.Algebra.BigOperators.Intervals
import Mathlib.Algebra.Order.BigOperators.Group.Finset

/-!
# Calendar — the proleptic Gregorian calendar

Dates, and the number of days from 1 January 1970 to each of them: the lengths of the years between,
those of the months before, and the days.
-/

namespace Snail.Reasoning

/-! ## 1. Dates -/

def isLeap (y : Int) : Bool := y % 4 = 0 && (y % 100 ≠ 0 || y % 400 = 0)

def yearLength (y : Int) : Nat := if isLeap y then 366 else 365

def monthLength (y : Int) (m : Nat) : Nat :=
  if m = 2 then if isLeap y then 29 else 28
  else if m = 4 ∨ m = 6 ∨ m = 9 ∨ m = 11 then 30
  else 31

structure Date where
  year : Int
  month : Nat
  day : Nat
  month_pos : 1 ≤ month
  month_le : month ≤ 12
  day_pos : 1 ≤ day
  day_le : day ≤ monthLength year month
  deriving DecidableEq

-- the first day of a year
def yearStart (y : Int) : Int :=
  (∑ i ∈ Finset.range (y - 1970).toNat, (yearLength (1970 + i) : Int)) -
    ∑ i ∈ Finset.range (1970 - y).toNat, (yearLength (1969 - i) : Int)

-- the days of a year before a month
def monthStart (y : Int) (m : Nat) : Nat := ∑ i ∈ Finset.range (m - 1), monthLength y (i + 1)

/-- The number of days from 1 January 1970. -/
def Date.dayNumber (d : Date) : Int :=
  yearStart d.year + monthStart d.year d.month + (d.day - 1 : Int)

-- counted from Sunday; 1 January 1970 was a Thursday
def weekday (n : Int) : Nat := ((n + 4) % 7).toNat

/-! ## 2. Counting leap years -/

-- the leap years up to `n`, less those up to the year 0
def leapCount (n : Int) : Int := n / 4 - n / 100 + n / 400

theorem leapCount_pred (n : Int) :
    leapCount n = leapCount (n - 1) + if isLeap n then 1 else 0 := by
  unfold leapCount isLeap
  split
  · rename_i h
    simp only [Bool.and_eq_true, Bool.or_eq_true, decide_eq_true_eq] at h
    omega
  · rename_i h
    simp only [Bool.and_eq_true, Bool.or_eq_true, decide_eq_true_eq] at h
    omega

theorem yearLength_eq (n : Int) : (yearLength n : Int) = 365 + leapCount n - leapCount (n - 1) := by
  have hleap := leapCount_pred n
  unfold yearLength
  split at hleap
  · rename_i h
    rw [if_pos h]
    push_cast
    omega
  · rename_i h
    rw [if_neg h]
    push_cast
    omega

theorem sum_later_years (n : Nat) :
    ∑ i ∈ Finset.range n, (yearLength (1970 + i) : Int) =
      365 * n + leapCount (1969 + n) - leapCount 1969 := by
  induction n with
  | zero => simp
  | succ n ih =>
    have hyear := yearLength_eq (1970 + n)
    rw [show (1970 + n : Int) - 1 = 1969 + n by omega] at hyear
    rw [Finset.sum_range_succ, ih, hyear]
    rw [show (1969 + (n + 1 : Nat) : Int) = 1970 + n by push_cast; omega]
    push_cast
    omega

theorem sum_earlier_years (n : Nat) :
    ∑ i ∈ Finset.range n, (yearLength (1969 - i) : Int) =
      365 * n + leapCount 1969 - leapCount (1969 - n) := by
  induction n with
  | zero => simp
  | succ n ih =>
    have hyear := yearLength_eq (1969 - n)
    rw [show (1969 - n : Int) - 1 = 1968 - n by omega] at hyear
    rw [Finset.sum_range_succ, ih, hyear]
    rw [show (1969 - (n + 1 : Nat) : Int) = 1968 - n by push_cast; omega]
    push_cast
    omega

theorem yearStart_eq (y : Int) :
    yearStart y = 365 * (y - 1970) + leapCount (y - 1) - leapCount 1969 := by
  unfold yearStart
  rw [sum_later_years, sum_earlier_years]
  by_cases h : 1970 ≤ y
  · have hn : ((y - 1970).toNat : Int) = y - 1970 := Int.toNat_of_nonneg (by omega)
    have hz : ((1970 - y).toNat : Int) = 0 := by omega
    rw [hn, hz, show (1969 + (y - 1970) : Int) = y - 1 by omega, Int.sub_zero]
    omega
  · have hn : ((1970 - y).toNat : Int) = 1970 - y := Int.toNat_of_nonneg (by omega)
    have hz : ((y - 1970).toNat : Int) = 0 := by omega
    rw [hn, hz, show (1969 - (1970 - y) : Int) = y - 1 by omega, Int.add_zero]
    omega

theorem yearStart_succ (y : Int) : yearStart (y + 1) = yearStart y + yearLength y := by
  rw [yearStart_eq, yearStart_eq, yearLength_eq, show y + 1 - 1 = y by omega]
  omega

theorem yearStart_le {y y' : Int} (h : y ≤ y') : yearStart y ≤ yearStart y' := by
  have hcount : leapCount (y - 1) ≤ leapCount (y' - 1) + 365 * (y' - y) := by
    unfold leapCount
    omega
  rw [yearStart_eq, yearStart_eq]
  omega

/-! ## 3. One date for each day -/

theorem monthStart_succ (y : Int) {m : Nat} (h : 1 ≤ m) :
    monthStart y (m + 1) = monthStart y m + monthLength y m := by
  unfold monthStart
  rw [show m + 1 - 1 = m - 1 + 1 by omega, Finset.sum_range_succ, show m - 1 + 1 = m by omega]

theorem monthStart_le (y : Int) {m m' : Nat} (h : m ≤ m') : monthStart y m ≤ monthStart y m' :=
  Finset.sum_le_sum_of_subset (Finset.range_subset_range.mpr (by omega))

-- the twelve months make up the year
theorem monthStart_thirteen (y : Int) : monthStart y 13 = yearLength y := by
  unfold monthStart yearLength monthLength
  simp only [Finset.sum_range_succ, Finset.sum_range_zero]
  cases isLeap y <;> rfl

theorem Date.dayNumber_bounds (d : Date) :
    yearStart d.year + monthStart d.year d.month ≤ d.dayNumber ∧
      d.dayNumber < yearStart d.year + monthStart d.year (d.month + 1) := by
  have hpos := d.day_pos
  have hle := d.day_le
  rw [monthStart_succ d.year d.month_pos]
  unfold dayNumber
  push_cast
  omega

theorem Date.dayNumber_year (d : Date) :
    yearStart d.year ≤ d.dayNumber ∧ d.dayNumber < yearStart (d.year + 1) := by
  have hbounds := d.dayNumber_bounds
  have hlast := monthStart_le d.year (show d.month + 1 ≤ 13 by have := d.month_le; omega)
  rw [monthStart_thirteen] at hlast
  rw [yearStart_succ]
  omega

theorem Date.year_le_of_dayNumber {d d' : Date} (h : d.dayNumber = d'.dayNumber) :
    d.year ≤ d'.year := by
  by_contra hlt
  have hyears := yearStart_le (show d'.year + 1 ≤ d.year by omega)
  have hd := d.dayNumber_year
  have hd' := d'.dayNumber_year
  omega

theorem Date.month_le_of_dayNumber {d d' : Date} (hyear : d.year = d'.year)
    (h : d.dayNumber = d'.dayNumber) : d.month ≤ d'.month := by
  by_contra hlt
  have hmonths := monthStart_le d.year (show d'.month + 1 ≤ d.month by omega)
  have hd := d.dayNumber_bounds
  have hd' := d'.dayNumber_bounds
  rw [← hyear] at hd'
  omega

/-- A day has one date only. -/
theorem Date.dayNumber_injective {d d' : Date} (h : d.dayNumber = d'.dayNumber) : d = d' := by
  have hyear : d.year = d'.year :=
    le_antisymm (year_le_of_dayNumber h) (year_le_of_dayNumber h.symm)
  have hmonth : d.month = d'.month :=
    le_antisymm (month_le_of_dayNumber hyear h) (month_le_of_dayNumber hyear.symm h.symm)
  have hday : d.day = d'.day := by
    unfold dayNumber at h
    rw [hyear, hmonth] at h
    omega
  cases d
  cases d'
  cases hyear
  cases hmonth
  cases hday
  rfl

end Snail.Reasoning
