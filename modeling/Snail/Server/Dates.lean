import Snail.Reasoning.Calendar
import Snail.Server.Received

/-!
# Dates — the date of a trace line

`civil_from_days` counts in eras of 400 years that begin in March, so that the leap day comes last.
-/

open Snail.Reasoning

namespace Snail.Server

/-! ## 1. Days of an era -/

/-- A day of an era: the century, the four years in it, the year in these, and the day of the year.
Only a leap year has 366 days, and it is the last of its four. -/
structure EraDay where
  century : Int
  cycle : Int
  year : Int
  doy : Int
  century_range : 0 ≤ century ∧ century ≤ 3
  cycle_range : 0 ≤ cycle ∧ cycle ≤ 24
  year_range : 0 ≤ year ∧ year ≤ 3
  doy_range : 0 ≤ doy ∧ (doy ≤ 364 ∨ doy = 365 ∧ year = 3 ∧ (cycle ≠ 24 ∨ century = 3))

-- the year of the era, and the day of the era
def EraDay.yoe (p : EraDay) : Int := 100 * p.century + 4 * p.cycle + p.year

def EraDay.doe (p : EraDay) : Int := 36524 * p.century + 1461 * p.cycle + 365 * p.year + p.doy

theorem exists_eraDay {doe : Int} (hpos : 0 ≤ doe) (hle : doe ≤ 146096) :
    ∃ p : EraDay, p.doe = doe := by
  -- each part is the quotient, except that the last century and the last year may be a day longer
  obtain ⟨g, hg⟩ : ∃ g, g = min (doe / 36524) 3 := ⟨_, rfl⟩
  obtain ⟨f, hf⟩ : ∃ f, f = (doe - 36524 * g) / 1461 := ⟨_, rfl⟩
  obtain ⟨s, hs⟩ : ∃ s, s = min ((doe - 36524 * g - 1461 * f) / 365) 3 := ⟨_, rfl⟩
  refine ⟨⟨g, f, s, doe - 36524 * g - 1461 * f - 365 * s, ?_, ?_, ?_, ?_⟩, ?_⟩
  · omega
  · omega
  · omega
  · omega
  · unfold EraDay.doe
    dsimp only
    omega

section
variable (p : EraDay)

theorem EraDay.yoe_range : 0 ≤ p.yoe ∧ p.yoe ≤ 399 := by
  have hcentury := p.century_range
  have hcycle := p.cycle_range
  have hyear := p.year_range
  unfold yoe
  omega

theorem EraDay.doe_range : 0 ≤ p.doe ∧ p.doe ≤ 146096 := by
  have hcentury := p.century_range
  have hcycle := p.cycle_range
  have hyear := p.year_range
  have hdoy := p.doy_range
  unfold doe
  omega

theorem EraDay.doe_eq : p.doe = 365 * p.yoe + p.yoe / 4 - p.yoe / 100 + p.doy := by
  have hcycle := p.cycle_range
  have hyear := p.year_range
  unfold doe yoe
  omega

/-- The days taken off are one for each leap day before, and on the last day of a leap year. -/
theorem EraDay.yoe_eq :
    (p.doe - p.doe / 1460 + p.doe / 36524 - p.doe / 146096) / 365 = p.yoe := by
  have hdoe : p.doe = 36524 * p.century + 1461 * p.cycle + 365 * p.year + p.doy := rfl
  have hyoe : p.yoe = 100 * p.century + 4 * p.cycle + p.year := rfl
  have hcentury := p.century_range
  have hcycle := p.cycle_range
  have hyear := p.year_range
  have hdoy := p.doy_range
  have hcycles : p.doe / 1460 = 25 * p.century + p.cycle +
      (24 * p.century + p.cycle + 365 * p.year + p.doy) / 1460 := by
    omega
  have hcenturies : p.doe / 36524 - p.doe / 146096 = p.century := by
    by_cases hlast : p.doe = 146096
    · rw [hlast]
      omega
    · have hquotient : p.doe / 36524 = p.century := by omega
      have hnone : p.doe / 146096 = 0 := by omega
      omega
  have hcarry : 0 ≤ p.doy - (24 * p.century + p.cycle + 365 * p.year + p.doy) / 1460 ∧
      p.doy - (24 * p.century + p.cycle + 365 * p.year + p.doy) / 1460 ≤ 364 := by
    omega
  omega

-- the leap day that ends a year belongs to the next calendar year
theorem EraDay.isLeap_of_doy (era : Int) (h : p.doy = 365) :
    isLeap (p.yoe + era * 400 + 1) = true := by
  have hcycle := p.cycle_range
  have hcentury := p.century_range
  have hdoy := p.doy_range
  unfold isLeap yoe
  simp only [Bool.and_eq_true, Bool.or_eq_true, decide_eq_true_eq]
  omega

end

/-! ## 2. Months from March -/

theorem monthLength_of_march (y : Int) {k : Nat} (h : k ≤ 9) :
    monthLength y (k + 3) = (153 * (k + 1) + 2) / 5 - (153 * k + 2) / 5 := by
  have hall : ∀ k ≤ 9, (if k + 3 = 4 ∨ k + 3 = 6 ∨ k + 3 = 9 ∨ k + 3 = 11 then 30 else 31) =
      (153 * (k + 1) + 2) / 5 - (153 * k + 2) / 5 := by
    decide
  unfold monthLength
  rw [if_neg (by omega), hall k h]

theorem monthStart_march (y : Int) : monthStart y 3 = 59 + if isLeap y then 1 else 0 := by
  unfold monthStart monthLength
  simp only [Finset.sum_range_succ, Finset.sum_range_zero]
  cases isLeap y <;> rfl

-- by induction on the months since March
theorem monthStart_of_march (y : Int) {k : Nat} (h : k ≤ 9) :
    monthStart y (k + 3) = monthStart y 3 + (153 * k + 2) / 5 := by
  induction k with
  | zero => rfl
  | succ k ih =>
    rw [show k + 1 + 3 = k + 3 + 1 by omega, monthStart_succ y (by omega), ih (by omega),
      monthLength_of_march y (by omega)]
    omega

-- the first of March
def marchStart (y : Int) : Int := yearStart y + monthStart y 3

theorem marchStart_eq (y : Int) : marchStart y = 365 * y + y / 4 - y / 100 + y / 400 - 719468 := by
  have hleap := leapCount_pred y
  have hcount : leapCount y = y / 4 - y / 100 + y / 400 := rfl
  have hbase : leapCount 1969 = 477 := by decide
  unfold marchStart
  rw [yearStart_eq, monthStart_march, hbase]
  split at hleap
  · rename_i h
    rw [if_pos h]
    push_cast
    omega
  · rename_i h
    rw [if_neg h]
    push_cast
    omega

theorem yearStart_succ_march (y : Int) : yearStart (y + 1) = marchStart y + 306 := by
  have hlength : yearLength y = monthStart y 3 + 306 := by
    rw [← monthStart_thirteen, monthStart_succ y (by decide : 1 ≤ 12),
      monthStart_of_march y (by decide : 9 ≤ 9), monthLength_of_march y (by decide : 9 ≤ 9)]
  rw [yearStart_succ, marchStart, hlength]
  push_cast
  omega

/-! ## 3. The date -/

/-- The date the algorithm makes of a day of the year that begins in March of `y`. -/
theorem exists_date {y doy : Int} (hpos : 0 ≤ doy)
    (hle : doy ≤ 364 ∨ doy = 365 ∧ isLeap (y + 1) = true) :
    ∃ date : Date, date.dayNumber = marchStart y + doy ∧
      date.year = (if (5 * doy + 2) / 153 < 10 then y else y + 1) ∧
      (date.month : Int) =
        (if (5 * doy + 2) / 153 < 10 then (5 * doy + 2) / 153 + 3 else (5 * doy + 2) / 153 - 9) ∧
      (date.day : Int) = doy - (153 * ((5 * doy + 2) / 153) + 2) / 5 + 1 := by
  obtain ⟨k, hk⟩ : ∃ k : Nat, (k : Int) = (5 * doy + 2) / 153 :=
    ⟨((5 * doy + 2) / 153).toNat, Int.toNat_of_nonneg (by omega)⟩
  -- the days from the first of March to the first of the month
  obtain ⟨q, hq⟩ : ∃ q, q = (153 * k + 2) / 5 := ⟨_, rfl⟩
  have hcast : (153 * (k : Int) + 2) / 5 = q := by omega
  obtain ⟨d, hd⟩ : ∃ d : Nat, (d : Int) = doy - q + 1 :=
    ⟨(doy - q + 1).toNat, Int.toNat_of_nonneg (by omega)⟩
  rw [← hk, hcast]
  by_cases hmarch : k ≤ 9
  · -- from March to December
    have hlength := monthLength_of_march y hmarch
    have hstart := monthStart_of_march y hmarch
    rw [← hq] at hlength hstart
    refine ⟨⟨y, k + 3, d, by omega, by omega, by omega, by omega⟩, ?_, ?_, ?_, hd⟩
    · unfold Date.dayNumber marchStart
      dsimp only
      rw [hstart]
      push_cast
      omega
    · rw [if_pos (by omega)]
    · rw [if_pos (by omega)]
      push_cast
      omega
  · -- January and February of the next calendar year
    have hlength : (d : Int) ≤ monthLength (y + 1) (k - 9) ∧
        (monthStart (y + 1) (k - 9) : Int) = q - 306 := by
      obtain rfl | rfl : k = 10 ∨ k = 11 := by omega
      · exact ⟨by change (d : Int) ≤ 31; omega, by rw [hq]; rfl⟩
      · have hfebruary : monthLength (y + 1) 2 = if isLeap (y + 1) then 29 else 28 := rfl
        refine ⟨?_, by rw [hq]; rfl⟩
        rw [hfebruary]
        rcases hle with hle | ⟨hle, hleap⟩
        · split <;> omega
        · rw [if_pos hleap]
          omega
    refine ⟨⟨y + 1, k - 9, d, by omega, by omega, by omega, by omega⟩, ?_, ?_, ?_, hd⟩
    · unfold Date.dayNumber
      dsimp only
      rw [yearStart_succ_march, hlength.2]
      omega
    · rw [if_neg (by omega)]
    · rw [if_neg (by omega)]
      dsimp only
      omega

-- the first day of an era's year
theorem marchStart_era (era : Int) (p : EraDay) :
    marchStart (p.yoe + era * 400) + p.doy = 146097 * era + p.doe - 719468 := by
  have hyoe := p.yoe_range
  rw [marchStart_eq, p.doe_eq]
  omega

theorem exists_era (z : Int) : ∃ era, ∃ p : EraDay,
    z = 146097 * era + p.doe - 719468 ∧ era = (z + 719468) / 146097 := by
  obtain ⟨p, hp⟩ := @exists_eraDay ((z + 719468) % 146097) (by omega) (by omega)
  exact ⟨(z + 719468) / 146097, p, by omega, rfl⟩

/-! ## 4. The algorithm -/

-- truncating division is that of the floor for the numbers it is used on
theorem era_tdiv {x era doe : Int} (hx : x = 146097 * era + doe) (hdoe : 0 ≤ doe ∧ doe ≤ 146096) :
    (if x ≥ 0 then x else x - 146096).tdiv 146097 = era := by
  split
  · rw [Int.tdiv_eq_ediv_of_nonneg (by omega)]
    omega
  · rw [show x - 146096 = -(146096 - x) by omega, Int.neg_tdiv,
      Int.tdiv_eq_ediv_of_nonneg (by omega)]
    omega

theorem EraDay.yoe_tdiv (p : EraDay) :
    (p.doe - p.doe.tdiv 1460 + p.doe.tdiv 36524 - p.doe.tdiv 146096).tdiv 365 = p.yoe := by
  have hdoe := p.doe_range
  have hyoe := p.yoe_eq
  have hrange := p.yoe_range
  rw [Int.tdiv_eq_ediv_of_nonneg hdoe.1, Int.tdiv_eq_ediv_of_nonneg hdoe.1,
    Int.tdiv_eq_ediv_of_nonneg hdoe.1, Int.tdiv_eq_ediv_of_nonneg (by omega), hyoe]

theorem EraDay.doy_tdiv (p : EraDay) :
    p.doe - (365 * p.yoe + p.yoe.tdiv 4 - p.yoe.tdiv 100) = p.doy := by
  have hyoe := p.yoe_range
  rw [Int.tdiv_eq_ediv_of_nonneg hyoe.1, Int.tdiv_eq_ediv_of_nonneg hyoe.1, p.doe_eq]
  omega

/-- What the algorithm computes from the day of an era. -/
theorem civilFromDays_era (era : Int) (p : EraDay) : ∃ date : Date,
    date.dayNumber = 146097 * era + p.doe - 719468 ∧
      (date.month : Int) = (if (5 * p.doy + 2).tdiv 153 < 10 then (5 * p.doy + 2).tdiv 153 + 3
        else (5 * p.doy + 2).tdiv 153 - 9) ∧
      (date.day : Int) = p.doy - (153 * (5 * p.doy + 2).tdiv 153 + 2).tdiv 5 + 1 ∧
      date.year = if date.month ≤ 2 then p.yoe + era * 400 + 1 else p.yoe + era * 400 := by
  have hdoy := p.doy_range
  obtain ⟨date, hnumber, hyear, hmonth, hday⟩ :=
    @exists_date (p.yoe + era * 400) p.doy hdoy.1
      (hdoy.2.imp id fun h => ⟨h.1, p.isLeap_of_doy era h.1⟩)
  rw [Int.tdiv_eq_ediv_of_nonneg (by omega), Int.tdiv_eq_ediv_of_nonneg (by omega)]
  refine ⟨date, by rw [hnumber, marchStart_era], hmonth, hday, ?_⟩
  have hpos := date.month_pos
  by_cases hmarch : (5 * p.doy + 2) / 153 < 10
  · rw [if_pos hmarch] at hmonth hyear
    rw [hyear, if_neg (by omega)]
  · rw [if_neg hmarch] at hmonth hyear
    rw [hyear, if_pos (by omega)]

theorem civilFromDays_date (z : Int) : ∃ date : Date, date.dayNumber = z ∧
    civilFromDays z = (date.year, date.month, date.day) := by
  obtain ⟨era, p, hz, -⟩ := exists_era z
  obtain ⟨date, hnumber, hmonth, hday, hyear⟩ := civilFromDays_era era p
  refine ⟨date, hnumber.trans hz.symm, ?_⟩
  have hera : (if z + 719468 ≥ 0 then z + 719468 else z + 719468 - 146096).tdiv 146097 = era :=
    era_tdiv (by omega) p.doe_range
  have hdoe : z + 719468 - era * 146097 = p.doe := by omega
  unfold civilFromDays
  dsimp only
  rw [hera, hdoe, p.yoe_tdiv, p.doy_tdiv, ← hmonth, ← hday, Int.toNat_natCast, Int.toNat_natCast,
    hyear]

/-! ## 5. In 64 bits -/

-- the result of an operation on `i64`, which panics outside the range
def i64? (x : Int) : Option Int :=
  if -0x8000000000000000 ≤ x ∧ x < 0x8000000000000000 then some x else none

-- `as u32`
def asU32 (x : Int) : Nat := (x % 0x100000000).toNat

-- the stages of `civil_from_days` with every addition, subtraction and multiplication checked
def checkedEra (z : Int) : Option Int := do
  let shifted ← (if z ≥ 0 then some z else i64? (z - 146096))
  return shifted.tdiv 146097

def checkedDoe (z era : Int) : Option Int := do
  let eraDays ← i64? (era * 146097)
  i64? (z - eraDays)

def checkedYoe (doe : Int) : Option Int := do
  let days ← i64? (doe - doe.tdiv 1460)
  let days ← i64? (days + doe.tdiv 36524)
  let days ← i64? (days - doe.tdiv 146096)
  return days.tdiv 365

def checkedYear (era yoe : Int) : Option Int := do
  let eraYears ← i64? (era * 400)
  i64? (yoe + eraYears)

def checkedDoy (doe yoe : Int) : Option Int := do
  let past ← i64? (365 * yoe)
  let past ← i64? (past + yoe.tdiv 4)
  let past ← i64? (past - yoe.tdiv 100)
  i64? (doe - past)

def checkedMonth (doy : Int) : Option Int := do
  let fifths ← i64? (5 * doy)
  let fifths ← i64? (fifths + 2)
  return fifths.tdiv 153

def checkedDay (doy mp : Int) : Option Int := do
  let past ← i64? (153 * mp)
  let past ← i64? (past + 2)
  let d ← i64? (doy - past.tdiv 5)
  i64? (d + 1)

def checkedCivilFromDays (z : Int) : Option (Int × Nat × Nat) := do
  let z ← i64? (z + 719468)
  let era ← checkedEra z
  let doe ← checkedDoe z era
  let yoe ← checkedYoe doe
  let y ← checkedYear era yoe
  let doy ← checkedDoy doe yoe
  let mp ← checkedMonth doy
  let d ← checkedDay doy mp
  let m ← (if mp < 10 then i64? (mp + 3) else i64? (mp - 9))
  let year ← (if asU32 m ≤ 2 then i64? (y + 1) else some y)
  return (year, asU32 m, asU32 d)

theorem i64?_eq {x : Int} (h : -0x8000000000000000 ≤ x ∧ x < 0x8000000000000000) :
    i64? x = some x := if_pos h

theorem asU32_natCast {n : Nat} (h : n < 0x100000000) : asU32 n = n := by
  unfold asU32
  omega

theorem checkedEra_eq {x era doe : Int} (hx : x = 146097 * era + doe)
    (hdoe : 0 ≤ doe ∧ doe ≤ 146096) (hrange : -2 ^ 62 ≤ x ∧ x ≤ 2 ^ 62 + 719468) :
    checkedEra x = some era := by
  have hera := era_tdiv hx hdoe
  have hshift : (if x ≥ 0 then some x else i64? (x - 146096)) =
      some (if x ≥ 0 then x else x - 146096) := by
    split
    · rfl
    · exact i64?_eq (by omega)
  unfold checkedEra
  rw [hshift]
  exact congrArg some hera

theorem checkedDoe_eq {x era doe : Int} (hx : x = 146097 * era + doe)
    (hdoe : 0 ≤ doe ∧ doe ≤ 146096) (hrange : -2 ^ 62 ≤ x ∧ x ≤ 2 ^ 62 + 719468) :
    checkedDoe x era = some doe := by
  have hdays : i64? (era * 146097) = some (era * 146097) := i64?_eq (by omega)
  unfold checkedDoe
  rw [hdays]
  change i64? (x - era * 146097) = some doe
  rw [show x - era * 146097 = doe by omega]
  exact i64?_eq (by omega)

section
variable (p : EraDay)

theorem EraDay.checkedYoe_eq : checkedYoe p.doe = some p.yoe := by
  have hdoe := p.doe_range
  have hyoe := p.yoe_eq
  have h₁ : i64? (p.doe - p.doe / 1460) = some (p.doe - p.doe / 1460) := i64?_eq (by omega)
  have h₂ : i64? (p.doe - p.doe / 1460 + p.doe / 36524) =
      some (p.doe - p.doe / 1460 + p.doe / 36524) := i64?_eq (by omega)
  have h₃ : i64? (p.doe - p.doe / 1460 + p.doe / 36524 - p.doe / 146096) =
      some (p.doe - p.doe / 1460 + p.doe / 36524 - p.doe / 146096) := i64?_eq (by omega)
  unfold checkedYoe
  simp only [Int.tdiv_eq_ediv_of_nonneg hdoe.1, h₁, h₂, h₃, Option.bind_eq_bind, Option.bind_some]
  rw [Int.tdiv_eq_ediv_of_nonneg (by omega), hyoe]
  rfl

theorem EraDay.checkedDoy_eq : checkedDoy p.doe p.yoe = some p.doy := by
  have hyoe := p.yoe_range
  have hdoe := p.doe_eq
  have hdoy := p.doy_range
  have h₁ : i64? (365 * p.yoe) = some (365 * p.yoe) := i64?_eq (by omega)
  have h₂ : i64? (365 * p.yoe + p.yoe / 4) = some (365 * p.yoe + p.yoe / 4) :=
    i64?_eq (by omega)
  have h₃ : i64? (365 * p.yoe + p.yoe / 4 - p.yoe / 100) =
      some (365 * p.yoe + p.yoe / 4 - p.yoe / 100) := i64?_eq (by omega)
  unfold checkedDoy
  simp only [Int.tdiv_eq_ediv_of_nonneg hyoe.1, h₁, h₂, h₃, Option.bind_eq_bind, Option.bind_some]
  rw [show p.doe - (365 * p.yoe + p.yoe / 4 - p.yoe / 100) = p.doy by omega]
  exact i64?_eq (by omega)

theorem EraDay.checkedMonth_eq : checkedMonth p.doy = some ((5 * p.doy + 2).tdiv 153) := by
  have hdoy := p.doy_range
  have h₁ : i64? (5 * p.doy) = some (5 * p.doy) := i64?_eq (by omega)
  have h₂ : i64? (5 * p.doy + 2) = some (5 * p.doy + 2) := i64?_eq (by omega)
  unfold checkedMonth
  simp only [h₁, h₂, Option.bind_eq_bind, Option.bind_some]
  rfl

end

theorem checkedDay_eq {doy mp : Int} (hdoy : 0 ≤ doy ∧ doy ≤ 365) (hmp : 0 ≤ mp ∧ mp ≤ 11) :
    checkedDay doy mp = some (doy - (153 * mp + 2).tdiv 5 + 1) := by
  have h₁ : i64? (153 * mp) = some (153 * mp) := i64?_eq (by omega)
  have h₂ : i64? (153 * mp + 2) = some (153 * mp + 2) := i64?_eq (by omega)
  have h₃ : i64? (doy - (153 * mp + 2) / 5) = some (doy - (153 * mp + 2) / 5) :=
    i64?_eq (by omega)
  unfold checkedDay
  simp only [h₁, h₂, Option.bind_eq_bind, Option.bind_some]
  rw [Int.tdiv_eq_ediv_of_nonneg (by omega), h₃]
  exact i64?_eq (by omega)

theorem checkedYear_eq {era yoe : Int} (hera : -2 ^ 62 ≤ 400 * era ∧ 400 * era ≤ 2 ^ 62)
    (hyoe : 0 ≤ yoe ∧ yoe ≤ 399) : checkedYear era yoe = some (yoe + era * 400) := by
  have h₁ : i64? (era * 400) = some (era * 400) := i64?_eq (by omega)
  unfold checkedYear
  rw [h₁]
  exact i64?_eq (by omega)

/-- No operation leaves the range. -/
theorem checkedCivilFromDays_date {z : Int} (hz : -2 ^ 62 ≤ z ∧ z ≤ 2 ^ 62) :
    ∃ date : Date, date.dayNumber = z ∧
      checkedCivilFromDays z = some (date.year, date.month, date.day) := by
  obtain ⟨era, p, hp, hera⟩ := exists_era z
  obtain ⟨date, hnumber, hmonth, hday, hyear⟩ := civilFromDays_era era p
  refine ⟨date, hnumber.trans hp.symm, ?_⟩
  have hx : z + 719468 = 146097 * era + p.doe := by omega
  have hdoy : 0 ≤ p.doy ∧ p.doy ≤ 365 := by have := p.doy_range; omega
  have hmp : 0 ≤ (5 * p.doy + 2).tdiv 153 ∧ (5 * p.doy + 2).tdiv 153 ≤ 11 := by
    rw [Int.tdiv_eq_ediv_of_nonneg (by omega)]
    omega
  have hlength : date.day ≤ 31 := by
    have hle := date.day_le
    unfold monthLength at hle
    split at hle
    · split at hle <;> omega
    · split at hle <;> omega
  have hmonthLe := date.month_le
  have hm : (if (5 * p.doy + 2).tdiv 153 < 10 then i64? ((5 * p.doy + 2).tdiv 153 + 3)
      else i64? ((5 * p.doy + 2).tdiv 153 - 9)) = some (date.month : Int) := by
    rw [hmonth]
    split
    · exact i64?_eq (by omega)
    · exact i64?_eq (by omega)
  have hy : (if date.month ≤ 2 then i64? (p.yoe + era * 400 + 1) else some (p.yoe + era * 400)) =
      some date.year := by
    have hyoe := p.yoe_range
    rw [hyear]
    split
    · exact i64?_eq (by omega)
    · rfl
  have hbase : i64? (z + 719468) = some (z + 719468) := i64?_eq (by omega)
  unfold checkedCivilFromDays
  have hrange : -2 ^ 62 ≤ z + 719468 ∧ z + 719468 ≤ 2 ^ 62 + 719468 := by omega
  have hyears : -2 ^ 62 ≤ 400 * era ∧ 400 * era ≤ 2 ^ 62 := by omega
  refine Option.bind_eq_some_iff.mpr ⟨_, hbase, ?_⟩
  refine Option.bind_eq_some_iff.mpr ⟨_, checkedEra_eq hx p.doe_range hrange, ?_⟩
  refine Option.bind_eq_some_iff.mpr ⟨_, checkedDoe_eq hx p.doe_range hrange, ?_⟩
  refine Option.bind_eq_some_iff.mpr ⟨_, p.checkedYoe_eq, ?_⟩
  refine Option.bind_eq_some_iff.mpr ⟨_, checkedYear_eq hyears p.yoe_range, ?_⟩
  refine Option.bind_eq_some_iff.mpr ⟨_, p.checkedDoy_eq, ?_⟩
  refine Option.bind_eq_some_iff.mpr ⟨_, p.checkedMonth_eq, ?_⟩
  refine Option.bind_eq_some_iff.mpr ⟨_, checkedDay_eq hdoy hmp, ?_⟩
  refine Option.bind_eq_some_iff.mpr ⟨_, hm, ?_⟩
  rw [asU32_natCast (show date.month < 0x100000000 by omega), ← hday,
    asU32_natCast (show date.day < 0x100000000 by omega)]
  exact Option.bind_eq_some_iff.mpr ⟨_, hy, rfl⟩

/-- In range, the checked and the unchecked arithmetic agree on the one date with that number. -/
theorem civilFromDays_unique {z : Int} (hz : -2 ^ 62 ≤ z ∧ z ≤ 2 ^ 62) :
    ∃ date : Date, civilFromDays z = (date.year, date.month, date.day) ∧
      checkedCivilFromDays z = some (date.year, date.month, date.day) ∧
      ∀ other : Date, other.dayNumber = z ↔ other = date := by
  obtain ⟨date, hnumber, hcivil⟩ := civilFromDays_date z
  obtain ⟨date', hnumber', hchecked⟩ := checkedCivilFromDays_date hz
  have heq : date' = date := Date.dayNumber_injective (hnumber'.trans hnumber.symm)
  rw [heq] at hchecked
  refine ⟨date, hcivil, hchecked, fun other => ⟨fun h => ?_, fun h => ?_⟩⟩
  · exact Date.dayNumber_injective (h.trans hnumber.symm)
  · rw [h]
    exact hnumber

/-! ## 6. The date line -/

/-- `rfc5322_date`, stopping where it would overflow or index outside a table. -/
def checkedRfc5322Date (now : SystemTime) : Option Str := do
  let days := now.toSecs / 86400
  let date ← checkedCivilFromDays days
  let wd ← weekdays[(days % 7 + 4) % 7]?
  let mon ← (if 1 ≤ date.2.1 then months[date.2.1 - 1]? else none)
  let tod := now.toSecs % 86400
  return wd ++ ", ".toList ++ showNatPadded 2 date.2.2 ++ ' ' :: mon ++ ' ' :: showInt date.1 ++
    ' ' :: showNatPadded 2 (tod / 3600) ++ ':' :: showNatPadded 2 (tod % 3600 / 60) ++ ':' ::
    showNatPadded 2 (tod % 60) ++ " +0000".toList

theorem exists_weekday (n : Int) : ∃ wd, weekdays[weekday n]? = some wd := by
  have hlt : weekday n < weekdays.length := by
    change weekday n < 7
    unfold weekday
    omega
  exact ⟨_, List.getElem?_eq_getElem hlt⟩

theorem exists_month (date : Date) : ∃ mon, months[date.month - 1]? = some mon := by
  have hlt : date.month - 1 < months.length := by
    have hle := date.month_le
    change date.month - 1 < 12
    omega
  exact ⟨_, List.getElem?_eq_getElem hlt⟩

theorem weekday_natCast (n : Nat) : (n % 7 + 4) % 7 = weekday n := by
  unfold weekday
  omega

-- the line with its table entries looked up
def dateLine (wd mon : Str) (date : Date) (hour min sec : Nat) : Str :=
  wd ++ ", ".toList ++ showNatPadded 2 date.day ++ ' ' :: mon ++ ' ' :: showInt date.year ++
    ' ' :: showNatPadded 2 hour ++ ':' :: showNatPadded 2 min ++ ':' ::
    showNatPadded 2 sec ++ " +0000".toList

theorem rfc5322Date_eq {now : SystemTime} {date : Date} {wd mon : Str}
    (hdate : civilFromDays (now.toSecs / 86400 : Nat) = (date.year, date.month, date.day))
    (hwd : weekdays[weekday (now.toSecs / 86400 : Nat)]? = some wd)
    (hmon : months[date.month - 1]? = some mon) :
    rfc5322Date now = dateLine wd mon date (now.toSecs % 86400 / 3600)
      (now.toSecs % 86400 % 3600 / 60) (now.toSecs % 86400 % 60) := by
  unfold rfc5322Date dateText
  dsimp only
  rw [hdate, weekday_natCast, List.getD_eq_getElem?_getD, List.getD_eq_getElem?_getD, hwd, hmon]
  rfl

theorem checkedRfc5322Date_eq {now : SystemTime} {date : Date} {wd mon : Str}
    (hdate : checkedCivilFromDays (now.toSecs / 86400 : Nat) =
      some (date.year, date.month, date.day))
    (hwd : weekdays[weekday (now.toSecs / 86400 : Nat)]? = some wd)
    (hmon : months[date.month - 1]? = some mon) :
    checkedRfc5322Date now = some (dateLine wd mon date (now.toSecs % 86400 / 3600)
      (now.toSecs % 86400 % 3600 / 60) (now.toSecs % 86400 % 60)) := by
  unfold checkedRfc5322Date
  dsimp only
  simp only [hdate, weekday_natCast, hwd, if_pos date.month_pos, hmon, Option.bind_eq_bind,
    Option.bind_some]
  rfl

theorem civilFromDays_rfc5322Date (z : Int) (hz : -2 ^ 62 ≤ z ∧ z ≤ 2 ^ 62) (now : SystemTime) :
    (∃ date : Date, civilFromDays z = (date.year, date.month, date.day) ∧
      checkedCivilFromDays z = some (date.year, date.month, date.day) ∧
      ∀ other : Date, other.dayNumber = z ↔ other = date) ∧
    ∃ (date : Date) (wd mon : Str) (hour min sec : Nat),
      weekdays[weekday date.dayNumber]? = some wd ∧ months[date.month - 1]? = some mon ∧
      hour < 24 ∧ min < 60 ∧ sec < 60 ∧
      (0 ≤ now.secs → now.secs = 86400 * date.dayNumber + 3600 * hour + 60 * min + sec) ∧
      rfc5322Date now = dateLine wd mon date hour min sec ∧
      checkedRfc5322Date now = some (rfc5322Date now) := by
  refine ⟨civilFromDays_unique hz, ?_⟩
  have hsecs := now.secs_lt
  have hdays : -2 ^ 62 ≤ ((now.toSecs / 86400 : Nat) : Int) ∧
      ((now.toSecs / 86400 : Nat) : Int) ≤ 2 ^ 62 := by
    unfold SystemTime.toSecs
    omega
  obtain ⟨date, hcivil, hchecked, hdate⟩ := civilFromDays_unique hdays
  have hnumber : date.dayNumber = (now.toSecs / 86400 : Nat) := (hdate date).mpr rfl
  obtain ⟨wd, hwd⟩ := exists_weekday date.dayNumber
  obtain ⟨mon, hmon⟩ := exists_month date
  refine ⟨date, wd, mon, now.toSecs % 86400 / 3600, now.toSecs % 86400 % 3600 / 60,
    now.toSecs % 86400 % 60, hwd, hmon, by omega, by omega, by omega, ?_, ?_, ?_⟩
  · intro hpos
    rw [hnumber]
    unfold SystemTime.toSecs
    omega
  · rw [hnumber] at hwd
    exact rfc5322Date_eq hcivil hwd hmon
  · rw [hnumber] at hwd
    rw [rfc5322Date_eq hcivil hwd hmon]
    exact checkedRfc5322Date_eq hchecked hwd hmon

-- the day before the epoch
theorem civilFromDays_rfc5322Date_eve :
    ∃ date : Date, (date.year, date.month, date.day) = (1969, 12, 31) ∧
      ∀ other : Date, other.dayNumber = -1 ↔ other = date := by
  obtain ⟨date, hcivil, -, hunique⟩ :=
    (civilFromDays_rfc5322Date (-1) (by decide) .unixEpoch).1
  have heve : civilFromDays (-1) = (1969, 12, 31) := by decide
  exact ⟨date, hcivil.symm.trans heve, hunique⟩

end Snail.Server
