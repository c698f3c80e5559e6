import Mathlib.Tactic.Common

/-!
# The Gregorian calendar

Days are counted from the first of January of the year 0, and the calendar is extended to all years.
**A later day has a later date** (`days_lt_iff`): its year, its month, and its day compare one
after the other.
-/

set_option autoImplicit false

namespace Lib.Gregorian

/-- The days before the first day of a year. -/
def daysBefore (year : Int) : Int :=
  365 * year + (year + 3) / 4 - (year + 99) / 100 + (year + 399) / 400

/-- The year of a day. An average year is near it. -/
def yearOf (day : Int) : Int :=
  let near := day * 400 / 146097
  if daysBefore (near + 1) ≤ day then near + 1
  else if daysBefore near ≤ day then near
  else near - 1

/-- The day within its year, from 0. -/
def ordinal (day : Int) : Int := day - daysBefore (yearOf day)

/-- The length of February. -/
def february (year : Int) : Int :=
  if year % 4 = 0 ∧ (year % 100 ≠ 0 ∨ year % 400 = 0) then 29 else 28

/-- The month of a day. From March on months have 153 days in five. -/
def monthOf (day : Int) : Nat :=
  let o := ordinal day
  let march := 31 + february (yearOf day)
  if o < 31 then 1
  else if o < march then 2
  else ((5 * (o - march) + 2) / 153 + 3).toNat

/-- The day of the month, from 1. -/
def dayOf (day : Int) : Nat :=
  let o := ordinal day
  let march := 31 + february (yearOf day)
  if o < 31 then (o + 1).toNat
  else if o < march then (o - 30).toNat
  else (o - march - (153 * ((5 * (o - march) + 2) / 153) + 2) / 5 + 1).toNat

/-! ## Years -/

theorem daysBefore_succ (year : Int) :
    daysBefore (year + 1) = daysBefore year + 337 + february year := by
  unfold daysBefore february
  split <;> omega

theorem daysBefore_mono {year year' : Int} (h : year ≤ year') :
    daysBefore year ≤ daysBefore year' := by
  unfold daysBefore
  omega

/-- A day is in its year. -/
theorem yearOf_spec (day : Int) :
    daysBefore (yearOf day) ≤ day ∧ day < daysBefore (yearOf day + 1) := by
  unfold yearOf
  simp only []
  split
  · refine ⟨by assumption, ?_⟩
    unfold daysBefore
    omega
  · split
    · exact ⟨by assumption, by omega⟩
    · refine ⟨?_, ?_⟩
      · unfold daysBefore
        omega
      · rw [Int.sub_add_cancel]
        omega

/-- A year is at least another from the first day of that on. -/
theorem le_yearOf_iff {year day : Int} : year ≤ yearOf day ↔ daysBefore year ≤ day := by
  have hspec := yearOf_spec day
  constructor
  · intro h
    exact Int.le_trans (daysBefore_mono h) hspec.1
  · intro h
    by_contra hlt
    have hle := daysBefore_mono (show yearOf day + 1 ≤ year by omega)
    omega

/-! ## Months and days -/

theorem ordinal_spec (day : Int) :
    0 ≤ ordinal day ∧ ordinal day < 337 + february (yearOf day) := by
  have hspec := yearOf_spec day
  rw [daysBefore_succ] at hspec
  unfold ordinal
  omega

theorem february_spec (year : Int) : february year = 28 ∨ february year = 29 := by
  unfold february
  split
  · exact Or.inr rfl
  · exact Or.inl rfl

theorem monthOf_lt (day : Int) : monthOf day < 100 := by
  have ho := ordinal_spec day
  unfold monthOf
  simp only []
  split
  · omega
  · split <;> omega

theorem dayOf_lt (day : Int) : dayOf day < 100 := by
  have ho := ordinal_spec day
  have hf := february_spec (yearOf day)
  unfold dayOf
  simp only []
  split
  · omega
  · split <;> omega

/-- Within a year, month and day tell the day. -/
theorem ordinal_lt_iff {day day' : Int} (hyear : yearOf day = yearOf day') :
    ordinal day < ordinal day' ↔
      monthOf day < monthOf day' ∨ monthOf day = monthOf day' ∧ dayOf day < dayOf day' := by
  have ho := ordinal_spec day
  have ho' := ordinal_spec day'
  have hf := february_spec (yearOf day)
  unfold monthOf dayOf
  simp only []
  rw [← hyear] at ho' ⊢
  generalize ordinal day = o at *
  generalize ordinal day' = o' at *
  generalize february (yearOf day) = f at *
  split <;> split <;> (try split) <;> (try split) <;> omega

/-- **A later day has a later date.** -/
theorem days_lt_iff {day day' : Int} :
    day < day' ↔ yearOf day < yearOf day' ∨ yearOf day = yearOf day' ∧
      (monthOf day < monthOf day' ∨ monthOf day = monthOf day' ∧ dayOf day < dayOf day') := by
  rcases Int.lt_trichotomy (yearOf day) (yearOf day') with h | h | h
  · have hlt : ¬yearOf day' ≤ yearOf day := by omega
    rw [le_yearOf_iff] at hlt
    have hspec := yearOf_spec day'
    omega
  · rw [← ordinal_lt_iff h]
    unfold ordinal
    rw [h]
    omega
  · have hlt : ¬yearOf day ≤ yearOf day' := by omega
    rw [le_yearOf_iff] at hlt
    have hspec := yearOf_spec day
    omega

/-- A date is the date of one day. -/
theorem days_eq_iff {day day' : Int} :
    day = day' ↔
      yearOf day = yearOf day' ∧ monthOf day = monthOf day' ∧ dayOf day = dayOf day' := by
  constructor
  · rintro rfl
    exact ⟨rfl, rfl, rfl⟩
  · intro h
    have hlt := @days_lt_iff day day'
    have hgt := @days_lt_iff day' day
    omega

/-- A leap day, and the day after it. -/
example : (monthOf 59, dayOf 59, monthOf 60, dayOf 60) = (2, 29, 3, 1) := by decide

end Lib.Gregorian
