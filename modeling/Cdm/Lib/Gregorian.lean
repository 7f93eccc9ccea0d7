import Mathlib.Algebra.Order.Group.Int
import Mathlib.Data.Nat.Find
import Mathlib.Tactic.Ring
import Mathlib.Tactic.NormNum

/-!
# The Gregorian calendar

Leap years, the lengths of months and the number of a day, for all years, before the calendar was
introduced as well.
-/

namespace Gregorian

def isLeapYear (year : ℤ) : Bool := year % 4 = 0 && (year % 100 ≠ 0 || year % 400 = 0)

def daysInMonth (year : ℤ) : ℕ → ℕ
  | 2 => if isLeapYear year then 29 else 28
  | 4 | 6 | 9 | 11 => 30
  | _ => 31

/-- A day of the calendar. -/
def IsDay (year : ℤ) (month day : ℕ) : Prop :=
  1 ≤ month ∧ month ≤ 12 ∧ 1 ≤ day ∧ day ≤ daysInMonth year month

instance (year : ℤ) (month day : ℕ) : Decidable (IsDay year month day) :=
  inferInstanceAs (Decidable (_ ∧ _ ∧ _ ∧ _))

theorem daysInMonth_eq_of_ne {month : ℕ} (h : month ≠ 2) (year year' : ℤ) :
    daysInMonth year month = daysInMonth year' month := by
  unfold daysInMonth
  split
  · exact absurd rfl h
  all_goals rfl

theorem daysInMonth_le (year : ℤ) (month : ℕ) : daysInMonth year month ≤ 31 := by
  unfold daysInMonth
  split
  · split_ifs <;> decide
  all_goals decide

theorem daysInMonth_pos (year : ℤ) (month : ℕ) : 28 ≤ daysInMonth year month := by
  unfold daysInMonth
  split
  · split_ifs <;> decide
  all_goals decide

/-- Every day but the leap day is one of all years. -/
theorem IsDay.of_ne {year : ℤ} {month day : ℕ} (h : IsDay year month day)
    (hne : ¬ (month = 2 ∧ day = 29)) (year' : ℤ) : IsDay year' month day := by
  obtain ⟨hmonth, hmonth', hday, hday'⟩ := h
  refine ⟨hmonth, hmonth', hday, ?_⟩
  by_cases htwo : month = 2
  · subst htwo
    have hlength : daysInMonth year 2 ≤ 29 := by
      simp only [daysInMonth]
      split_ifs <;> decide
    have hlength' := daysInMonth_pos year' 2
    omega
  · rwa [daysInMonth_eq_of_ne htwo year' year]

theorem isDay_leapDay {year : ℤ} : IsDay year 2 29 ↔ isLeapYear year = true := by
  simp only [IsDay, daysInMonth]
  by_cases hleap : isLeapYear year = true <;> simp [hleap]

theorem isLeapYear_iff {year : ℤ} :
    isLeapYear year = true ↔ year % 4 = 0 ∧ (year % 100 ≠ 0 ∨ year % 400 = 0) := by
  simp [isLeapYear]

/-! ### Numbering the days -/

def daysInYear (year : ℤ) : ℕ := if isLeapYear year then 366 else 365

/-- The days from the first of 1970 to the first of a year. -/
def yearStart (year : ℤ) : ℤ :=
  365 * (year - 1) + (year - 1) / 4 - (year - 1) / 100 + (year - 1) / 400 - 719162

/-- The days of a year before a month. -/
def daysBefore (year : ℤ) : ℕ → ℕ
  | 0 | 1 => 0
  | month + 2 => daysBefore year (month + 1) + daysInMonth year (month + 1)

/-- The days from the first of 1970 to a day. -/
def dayNumber (year : ℤ) (month day : ℕ) : ℤ := yearStart year + daysBefore year month + (day - 1)

theorem yearStart_succ (year : ℤ) : yearStart (year + 1) = yearStart year + daysInYear year := by
  by_cases hleap : isLeapYear year = true
  · rw [daysInYear, if_pos hleap]
    rw [isLeapYear_iff] at hleap
    simp only [yearStart]
    omega
  · rw [daysInYear, if_neg hleap]
    rw [isLeapYear_iff] at hleap
    simp only [yearStart]
    omega

theorem yearStart_mono {year year' : ℤ} (h : year ≤ year') : yearStart year ≤ yearStart year' := by
  simp only [yearStart]
  omega

theorem daysBefore_succ (year : ℤ) {month : ℕ} (h : 1 ≤ month) :
    daysBefore year (month + 1) = daysBefore year month + daysInMonth year month := by
  cases month with
  | zero => omega
  | succ month => rfl

theorem daysBefore_mono (year : ℤ) {month month' : ℕ} (h : month ≤ month') :
    daysBefore year month ≤ daysBefore year month' := by
  induction h with
  | refl => exact le_rfl
  | @step last hle ih =>
    rcases Nat.eq_zero_or_pos last with rfl | hpos
    · exact ih
    · rw [Nat.succ_eq_add_one, daysBefore_succ year hpos]
      exact ih.trans (Nat.le_add_right _ _)

theorem daysBefore_thirteen (year : ℤ) : daysBefore year 13 = daysInYear year := by
  simp only [daysBefore, daysInMonth, daysInYear]
  split_ifs <;> rfl

theorem IsDay.daysBefore_succ_le {year : ℤ} {month day : ℕ} (h : IsDay year month day) :
    daysBefore year (month + 1) ≤ daysInYear year := by
  rw [← daysBefore_thirteen]
  exact daysBefore_mono year (Nat.succ_le_succ h.2.1)

/-- A day lies between the first of its month and the first of the next one. -/
theorem IsDay.dayNumber_bounds {year : ℤ} {month day : ℕ} (h : IsDay year month day) :
    dayNumber year month 1 ≤ dayNumber year month day ∧
      dayNumber year month day < dayNumber year month 1 + daysInMonth year month := by
  obtain ⟨-, -, hday, hday'⟩ := h
  simp only [dayNumber]
  omega

/-- A day lies between the first of its year and the first of the next one. -/
theorem IsDay.yearStart_bounds {year : ℤ} {month day : ℕ} (h : IsDay year month day) :
    yearStart year ≤ dayNumber year month day ∧
      dayNumber year month day < yearStart (year + 1) := by
  have hmonth := daysBefore_succ year h.1
  have hnext := h.daysBefore_succ_le
  have hbounds := h.dayNumber_bounds
  rw [yearStart_succ]
  simp only [dayNumber] at hbounds ⊢
  omega

/-- The first of the next month. -/
theorem dayNumber_succ_month (year : ℤ) {month : ℕ} (h : 1 ≤ month) :
    dayNumber year (month + 1) 1 = dayNumber year month 1 + daysInMonth year month := by
  have hmonth := daysBefore_succ year h
  simp only [dayNumber]
  omega

theorem dayNumber_first (year : ℤ) : dayNumber year 1 1 = yearStart year := by
  simp [dayNumber, daysBefore]

/-- December ends with the year. -/
theorem yearStart_succ_eq (year : ℤ) : yearStart (year + 1) = dayNumber year 12 1 + 31 := by
  have hmonth := daysBefore_succ year (show 1 ≤ 12 by decide)
  rw [daysBefore_thirteen] at hmonth
  have hlength : daysInMonth year 12 = 31 := rfl
  rw [yearStart_succ, dayNumber]
  omega

/-- Different days have different numbers. -/
theorem dayNumber_inj {year year' : ℤ} {month month' day day' : ℕ} (h : IsDay year month day)
    (h' : IsDay year' month' day') (heq : dayNumber year month day = dayNumber year' month' day') :
    year = year' ∧ month = month' ∧ day = day' := by
  have hbounds := h.yearStart_bounds
  have hbounds' := h'.yearStart_bounds
  obtain rfl : year = year' := by
    rcases lt_trichotomy year year' with hlt | rfl | hgt
    · have hmono := yearStart_mono (show year + 1 ≤ year' by omega)
      omega
    · rfl
    · have hmono := yearStart_mono (show year' + 1 ≤ year by omega)
      omega
  have hmonth := h.dayNumber_bounds
  have hmonth' := h'.dayNumber_bounds
  have hnext := dayNumber_succ_month year h.1
  have hnext' := dayNumber_succ_month year h'.1
  have hmono {first second : ℕ} (hle : first ≤ second) :
      dayNumber year first 1 ≤ dayNumber year second 1 := by
    have hbefore := daysBefore_mono year hle
    simp only [dayNumber]
    omega
  obtain rfl : month = month' := by
    rcases lt_trichotomy month month' with hlt | rfl | hgt
    · have hle := hmono (Nat.succ_le_of_lt hlt)
      rw [Nat.succ_eq_add_one] at hle
      omega
    · rfl
    · have hle := hmono (Nat.succ_le_of_lt hgt)
      rw [Nat.succ_eq_add_one] at hle
      omega
  refine ⟨rfl, rfl, ?_⟩
  simp only [dayNumber] at heq
  omega

/-! ### The day of a number -/

/-- The year that a day lies in: the mean length of a year finds it up to one. -/
def yearOf (number : ℤ) : ℤ :=
  let year := 400 * (number + 719162) / 146097 + 1
  if number < yearStart year then year - 1
  else if yearStart (year + 1) ≤ number then year + 1
  else year

/-- The month that the days of a year lie in. -/
def monthOf (year : ℤ) (days : ℕ) : ℕ :=
  Nat.findGreatest (fun month => daysBefore year month ≤ days) 12

def ofDayNumber (number : ℤ) : ℤ × ℕ × ℕ :=
  let year := yearOf number
  let days := (number - yearStart year).toNat
  let month := monthOf year days
  (year, month, days - daysBefore year month + 1)

theorem yearOf_bounds (number : ℤ) :
    yearStart (yearOf number) ≤ number ∧ number < yearStart (yearOf number + 1) := by
  simp only [yearOf]
  split_ifs with hbefore hbehind
  · refine ⟨?_, by rwa [sub_add_cancel]⟩
    simp only [yearStart]
    omega
  · refine ⟨hbehind, ?_⟩
    simp only [yearStart]
    omega
  · omega

theorem monthOf_bounds {year : ℤ} {days : ℕ} (h : days < daysInYear year) :
    (1 ≤ monthOf year days ∧ monthOf year days ≤ 12) ∧
      daysBefore year (monthOf year days) ≤ days ∧
        days < daysBefore year (monthOf year days + 1) := by
  have hmost : monthOf year days ≤ 12 := Nat.findGreatest_le 12
  have hone : 1 ≤ monthOf year days := Nat.le_findGreatest (by decide) (Nat.zero_le _)
  refine ⟨⟨hone, hmost⟩, Nat.findGreatest_spec (P := fun month => daysBefore year month ≤ days)
    (Nat.zero_le 12) (Nat.zero_le _), ?_⟩
  rcases Nat.lt_or_ge (monthOf year days) 12 with hlt | hge
  · exact not_le.1 (Nat.findGreatest_is_greatest
      (P := fun month => daysBefore year month ≤ days) (Nat.lt_succ_self _) hlt)
  · rw [show monthOf year days = 12 by omega, daysBefore_thirteen]
    exact h

/-- Every number is that of a day. -/
theorem dayNumber_ofDayNumber (number : ℤ) :
    IsDay (ofDayNumber number).1 (ofDayNumber number).2.1 (ofDayNumber number).2.2 ∧
      dayNumber (ofDayNumber number).1 (ofDayNumber number).2.1 (ofDayNumber number).2.2 =
        number := by
  have hyear := yearOf_bounds number
  rw [yearStart_succ] at hyear
  have hdays : (number - yearStart (yearOf number)).toNat < daysInYear (yearOf number) := by omega
  obtain ⟨⟨hone, hmost⟩, hmonth⟩ := monthOf_bounds hdays
  rw [daysBefore_succ _ hone] at hmonth
  simp only [ofDayNumber]
  refine ⟨⟨hone, hmost, Nat.succ_pos _, by omega⟩, ?_⟩
  rw [dayNumber]
  omega

end Gregorian
