import Mathlib.Data.Int.ConditionallyCompleteOrder
import Mathlib.Order.Bounds.Basic
import Mathlib.Order.Interval.Set.Basic
import Cdm.Codec.DateBounds

/-!
# The units of a date range

The milliseconds that agree with an instant up to a precision are an interval.  Where a bound is
read from the numbers of an instant, a lower one is the least of them, and an upper one is the
greatest unless the precision is that of milliseconds.
-/

namespace Cdm

open Gregorian

namespace DateRange

section Units

variable [Chrono]

def SameDay (value value' : NaiveDateTime) : Prop :=
  value.year = value'.year ∧ value.month = value'.month ∧ value.day = value'.day

/-- Two instants agree up to a precision. -/
def SameUnit (precision : Precision) (value value' : NaiveDateTime) : Prop :=
  match precision with
  | .year => value.year = value'.year
  | .month => value.year = value'.year ∧ value.month = value'.month
  | .day => SameDay value value'
  | .hour => SameDay value value' ∧ value.hour = value'.hour
  | .minute => SameDay value value' ∧ value.hour = value'.hour ∧ value.minute = value'.minute
  | .second => SameDay value value' ∧ value.hour = value'.hour ∧ value.minute = value'.minute ∧
      value.second = value'.second
  | .millisecond => SameDay value value' ∧ value.hour = value'.hour ∧
      value.minute = value'.minute ∧ value.second = value'.second ∧
        value.nanosecond / 10 ^ 6 = value'.nanosecond / 10 ^ 6

def dayStart (value : NaiveDateTime) : ℤ :=
  dayNumber value.year value.month value.day * 86400000

/-- The first millisecond of a unit. -/
def unitStart (precision : Precision) (value : NaiveDateTime) : ℤ :=
  match precision with
  | .year => yearStart value.year * 86400000
  | .month => dayNumber value.year value.month 1 * 86400000
  | .day => dayStart value
  | .hour => dayStart value + value.hour * 3600000
  | .minute => dayStart value + value.hour * 3600000 + value.minute * 60000
  | .second => dayStart value + value.hour * 3600000 + value.minute * 60000 + value.second * 1000
  | .millisecond => value.millis

/-- The first millisecond behind a unit. -/
def unitStop (precision : Precision) (value : NaiveDateTime) : ℤ :=
  match precision with
  | .year => yearStart (value.year + 1) * 86400000
  | .month => (dayNumber value.year value.month 1 +
      daysInMonth value.year value.month) * 86400000
  | .day => unitStart .day value + 86400000
  | .hour => unitStart .hour value + 3600000
  | .minute => unitStart .minute value + 60000
  | .second => unitStart .second value + 1000
  | .millisecond => value.millis + 1

variable [LawfulChrono] {value value' : NaiveDateTime}

theorem sameDay_iff : SameDay value value' ↔ dayStart value = dayStart value' := by
  rw [dayStart, dayStart]
  constructor
  · rintro ⟨hyear, hmonth, hday⟩
    rw [hyear, hmonth, hday]
  · intro h
    exact dayNumber_inj value.isDay value'.isDay (by omega)

/-- The days of a month. -/
theorem sameMonth_iff : SameUnit .month value value' ↔
    dayNumber value.year value.month 1 ≤
        dayNumber value'.year value'.month value'.day ∧
      dayNumber value'.year value'.month value'.day <
        dayNumber value.year value.month 1 +
          daysInMonth value.year value.month := by
  have hbounds := value'.isDay.dayNumber_bounds
  simp only [SameUnit]
  constructor
  · rintro ⟨hyear, hmonth⟩
    rw [hyear, hmonth]
    exact hbounds
  · rintro ⟨hstart, hstop⟩
    obtain ⟨days, hdays⟩ := Int.le.dest hstart
    have hday : Gregorian.IsDay value.year value.month (days + 1) :=
      ⟨value.isDay.1, value.isDay.2.1, Nat.succ_pos _, by omega⟩
    have hnumber : dayNumber value.year value.month (days + 1) =
        dayNumber value'.year value'.month value'.day := by
      rw [← hdays]
      simp only [dayNumber]
      omega
    obtain ⟨hyear, hmonth, -⟩ := dayNumber_inj hday value'.isDay hnumber
    exact ⟨hyear, hmonth⟩

/-- The days of a year. -/
theorem sameYear_iff : SameUnit .year value value' ↔
    yearStart value.year ≤ dayNumber value'.year value'.month value'.day ∧
      dayNumber value'.year value'.month value'.day <
        yearStart (value.year + 1) := by
  have hbounds := value'.isDay.yearStart_bounds
  simp only [SameUnit]
  constructor
  · intro hyear
    rw [hyear]
    exact hbounds
  · rintro ⟨hstart, hstop⟩
    rcases lt_trichotomy value.year value'.year with hlt | heq | hgt
    · have hmono := yearStart_mono (show value.year + 1 ≤ value'.year by omega)
      omega
    · exact heq
    · have hmono := yearStart_mono (show value'.year + 1 ≤ value.year by omega)
      omega

/-- The unit of an instant is an interval. -/
theorem sameUnit_iff (precision : Precision) (h : value.IsWhole) (h' : value'.IsWhole) :
    SameUnit precision value value' ↔
      unitStart precision value ≤ value'.millis ∧ value'.millis < unitStop precision value := by
  have hbounds := value.bounds
  have hbounds' := value'.bounds
  have htime := h.millisOfDay_lt
  have htime' := h'.millisOfDay_lt
  have hnano := h.1
  have hnano' := h'.1
  have hmillis : value.millis = dayStart value + value.millisOfDay := rfl
  have hmillis' : value'.millis = dayStart value' + value'.millisOfDay := rfl
  have hdays : ∃ days days', dayStart value = days * 86400000 ∧
      dayStart value' = days' * 86400000 := ⟨_, _, rfl, rfl⟩
  obtain ⟨days, days', hdays, hdays'⟩ := hdays
  simp only [NaiveDateTime.millisOfDay] at hmillis hmillis' htime htime'
  cases precision with
  | year =>
    rw [sameYear_iff, unitStart, unitStop]
    rw [dayStart] at hmillis'
    omega
  | month =>
    rw [sameMonth_iff, unitStart, unitStop]
    rw [dayStart] at hmillis'
    omega
  | _ =>
    simp only [SameUnit, sameDay_iff, unitStart, unitStop]
    omega

omit [LawfulChrono] in
theorem SameUnit.refl (precision : Precision) (value : NaiveDateTime) :
    SameUnit precision value value := by
  cases precision <;> simp [SameUnit, SameDay]

theorem unitStart_year_le (precision : Precision) (value : NaiveDateTime) :
    unitStart .year value ≤ unitStart precision value := by
  have hday := value.isDay.yearStart_bounds
  cases precision with
  | year => exact le_rfl
  | month =>
    simp only [unitStart, dayNumber]
    omega
  | _ =>
    simp only [unitStart, dayStart, NaiveDateTime.millis]
    omega

theorem unitStop_le_year (precision : Precision) (h : value.IsWhole) :
    unitStop precision value ≤ unitStop .year value := by
  have hday := value.isDay.yearStart_bounds
  have hbounds := value.bounds
  have htime := h.millisOfDay_lt
  cases precision with
  | year => exact le_rfl
  | month =>
    have hmonth := daysBefore_succ value.year value.isDay.1
    have hnext := value.isDay.daysBefore_succ_le
    have hyear := yearStart_succ value.year
    simp only [unitStop, dayNumber]
    omega
  | _ =>
    simp only [unitStop, unitStart, dayStart, NaiveDateTime.millis]
    omega

/-- A unit lies within the calendar. -/
theorem unit_bounds (precision : Precision) (h : value.IsWhole) :
    yearStart (-262143) * 86400000 ≤ unitStart precision value ∧
      unitStop precision value ≤ limit := by
  obtain ⟨⟨hmin, hmax⟩, -⟩ := LawfulChrono.isDate_iff.1 value.isDate
  have hfirst := yearStart_mono hmin
  have hlast := yearStart_mono (show value.year + 1 ≤ 262143 by omega)
  have hstart := unitStart_year_le precision value
  have hstop := unitStop_le_year precision h
  simp only [unitStart, unitStop, limit] at hstart hstop ⊢
  omega

/-! ### The numbers of a unit -/

/-- The numbers that a unit is written with, and the defaults of the others. -/
def BoundFields.normal (fields : BoundFields) : BoundFields :=
  let ⟨year, month, day, hour, minute, second, millis, precision⟩ := fields
  match precision with
  | .year => ⟨year, 1, 1, 0, 0, 0, 0, .year⟩
  | .month => ⟨year, month, 1, 0, 0, 0, 0, .month⟩
  | .day => ⟨year, month, day, 0, 0, 0, 0, .day⟩
  | .hour => ⟨year, month, day, hour, 0, 0, 0, .hour⟩
  | .minute => ⟨year, month, day, hour, minute, 0, 0, .minute⟩
  | .second => ⟨year, month, day, hour, minute, second, 0, .second⟩
  | .millisecond => ⟨year, month, day, hour, minute, second, millis, .millisecond⟩

/-- The numbers of an instant. -/
def fieldsOf (precision : Precision) (value : NaiveDateTime) : BoundFields :=
  ⟨value.year.toNat, value.month, value.day, value.hour, value.minute, value.second,
    value.nanosecond / 10 ^ 6, precision⟩

/-- The numbers of a unit. -/
def unitFields (precision : Precision) (value : NaiveDateTime) : BoundFields :=
  (fieldsOf precision value).normal

omit [LawfulChrono] in
@[simp] theorem precision_unitFields (precision : Precision) (value : NaiveDateTime) :
    (unitFields precision value).precision = precision := by
  cases precision <;> rfl

omit [LawfulChrono] in
theorem sameUnit_iff_unitFields (precision : Precision) (hyear : 0 ≤ value.year)
    (hyear' : 0 ≤ value'.year) : SameUnit precision value value' ↔
      unitFields precision value = unitFields precision value' := by
  have hcast : value.year.toNat = value'.year.toNat ↔ value.year = value'.year := by omega
  cases precision <;>
    simp [SameUnit, SameDay, unitFields, fieldsOf, BoundFields.normal, hcast, and_assoc]

omit [Chrono] [LawfulChrono] in
/-- The first instant of a unit. -/
theorem IsInstant.normal {fields : BoundFields} (h : IsInstant fields) :
    IsInstant fields.normal := by
  obtain ⟨year, month, day, hour, minute, second, millis, precision⟩ := fields
  obtain ⟨hyear, hday, hhour, hminute, hsecond⟩ := h
  have hfirst {month : ℕ} (hone : 1 ≤ month) (htwelve : month ≤ 12) :
      Gregorian.IsDay year month 1 :=
    ⟨hone, htwelve, le_rfl, le_trans (by norm_num) (daysInMonth_pos year month)⟩
  have hone : 1 ≤ 12 := Nat.succ_pos 11
  have hmidnight : 0 < 24 := Nat.succ_pos 23
  have hzero : 0 < 60 := Nat.succ_pos 59
  cases precision with
  | year => exact ⟨hyear, hfirst le_rfl hone, hmidnight, hzero, hzero⟩
  | month => exact ⟨hyear, hfirst hday.1 hday.2.1, hmidnight, hzero, hzero⟩
  | day => exact ⟨hyear, hday, hmidnight, hzero, hzero⟩
  | hour => exact ⟨hyear, hday, hhour, hzero, hzero⟩
  | minute => exact ⟨hyear, hday, hhour, hminute, hzero⟩
  | second => exact ⟨hyear, hday, hhour, hminute, hsecond⟩
  | millisecond => exact ⟨hyear, hday, hhour, hminute, hsecond⟩

theorem isInstant_fieldsOf (precision : Precision) (hyear : 0 ≤ value.year) :
    IsInstant (fieldsOf precision value) := by
  obtain ⟨⟨-, hmax⟩, hday⟩ := LawfulChrono.isDate_iff.1 value.isDate
  have hbounds := value.bounds
  have hcast : (value.year.toNat : ℤ) = value.year := Int.toNat_of_nonneg hyear
  refine ⟨?_, ?_, ?_, ?_, ?_⟩ <;> simp only [fieldsOf]
  · omega
  · rwa [hcast]
  all_goals omega

/-- Numbers of an instant are those of a value. -/
theorem exists_fieldsOf {fields : BoundFields} (h : IsInstant fields)
    (hmillis : fields.millis < 1000) : ∃ value : NaiveDateTime, value.IsWhole ∧ 0 ≤ value.year ∧
      fieldsOf fields.precision value = fields := by
  obtain ⟨year, month, day, hour, minute, second, millis, precision⟩ := fields
  obtain ⟨hyear, hday, hhour, hminute, hsecond⟩ := h
  dsimp only at hyear hhour hminute hsecond hmillis
  have hdate : Chrono.isDate year month day = true :=
    LawfulChrono.isDate_iff.2 ⟨⟨by omega, by exact_mod_cast hyear⟩, hday⟩
  refine ⟨⟨year, month, day, hour, minute, second, _, hdate,
    NaiveDateTime.isTime_of_lt hhour hminute hsecond hmillis⟩, ⟨?_, ?_⟩, Int.natCast_nonneg _, ?_⟩
  · dsimp only
    omega
  · exact Nat.mul_mod_left _ _
  · simp only [fieldsOf, Int.toNat_natCast, Nat.mul_div_cancel _ (show 0 < 10 ^ 6 by norm_num)]

omit [LawfulChrono] in
/-- A lower bound that is read from the numbers of a unit starts it. -/
theorem instantMillis_unitFields (precision : Precision) (hyear : 0 ≤ value.year) :
    instantMillis (unitFields precision value) = unitStart precision value := by
  have hcast : (value.year.toNat : ℤ) = value.year := Int.toNat_of_nonneg hyear
  cases precision with
  | year =>
    rw [unitStart, ← dayNumber_first, ← hcast]
    simp [instantMillis, unitFields, fieldsOf, BoundFields.normal]
  | millisecond =>
    simp only [instantMillis, unitFields, fieldsOf, BoundFields.normal, unitStart,
      NaiveDateTime.millis, NaiveDateTime.millisOfDay, hcast]
    omega
  | _ =>
    simp only [instantMillis, unitFields, fieldsOf, BoundFields.normal, unitStart, dayStart, hcast]
    omega

omit [LawfulChrono] in
/-- An upper bound that is read from the numbers of a unit ends it, and ends a second where the unit
is a millisecond. -/
theorem unitEnd_unitFields (precision : Precision) (hyear : 0 ≤ value.year) :
    unitEnd (unitFields precision value) =
      if precision = .millisecond then unitStop .second value else unitStop precision value := by
  have hcast : (value.year.toNat : ℤ) = value.year := Int.toNat_of_nonneg hyear
  cases precision <;>
    simp [unitEnd, unitFields, fieldsOf, BoundFields.normal, unitStop, unitStart, dayStart, hcast]

end Units

/-! ### Units as sets of milliseconds -/

section Sets

variable [ChronoUtc]

/-- The milliseconds of a unit. -/
def unit (precision : Precision) (value : NaiveDateTime) : Set ℤ :=
  {millis | ∃ value', ChronoUtc.fromTimestampMillis millis = some value' ∧
    SameUnit precision value value'}

variable [LawfulChronoUtc] {value : NaiveDateTime}

theorem unit_eq_Ico (precision : Precision) (h : value.IsWhole) :
    unit precision value = Set.Ico (unitStart precision value) (unitStop precision value) := by
  have hbounds := unit_bounds precision h
  ext millis
  rw [unit, Set.mem_ofPred_eq, Set.mem_Ico]
  constructor
  · rintro ⟨value', hvalue', hsame⟩
    rw [ChronoUtc.fromTimestampMillis_eq] at hvalue'
    obtain ⟨hwhole, rfl⟩ := NaiveDateTime.ofMillis_eq_some.1 hvalue'
    exact (sameUnit_iff precision h hwhole).1 hsame
  · rintro ⟨hstart, hstop⟩
    obtain ⟨value', hvalue'⟩ := Option.isSome_iff_exists.1 (NaiveDateTime.ofMillis_isSome.2
      ⟨hbounds.1.trans hstart, lt_of_lt_of_le hstop hbounds.2⟩)
    obtain ⟨hwhole, hmillis⟩ := NaiveDateTime.ofMillis_eq_some.1 hvalue'
    refine ⟨value', by rwa [ChronoUtc.fromTimestampMillis_eq], (sameUnit_iff precision h hwhole).2 ?_⟩
    rw [hmillis]
    exact ⟨hstart, hstop⟩

/-- The first millisecond of a unit. -/
theorem isLeast_unit_iff (precision : Precision) (h : value.IsWhole) {millis : ℤ} :
    IsLeast (unit precision value) millis ↔ millis = unitStart precision value := by
  have hself := (sameUnit_iff precision h h).1 (SameUnit.refl precision value)
  have hleast : IsLeast (unit precision value) (unitStart precision value) := by
    rw [unit_eq_Ico precision h]
    exact isLeast_Ico (hself.1.trans_lt hself.2)
  exact ⟨fun hmillis => hmillis.unique hleast, fun hmillis => hmillis ▸ hleast⟩

/-- The last millisecond of a unit. -/
theorem isGreatest_unit_iff (precision : Precision) (h : value.IsWhole) {millis : ℤ} :
    IsGreatest (unit precision value) millis ↔ millis + 1 = unitStop precision value := by
  have hself := (sameUnit_iff precision h h).1 (SameUnit.refl precision value)
  have hgreatest : IsGreatest (unit precision value) (unitStop precision value - 1) := by
    rw [unit_eq_Ico precision h]
    exact ⟨⟨by omega, by omega⟩, fun other hother => Int.le_sub_one_of_lt hother.2⟩
  constructor
  · intro hmillis
    rw [hmillis.unique hgreatest, sub_add_cancel]
  · intro hmillis
    rwa [← hmillis, add_sub_cancel_right] at hgreatest

end Sets

end DateRange

end Cdm
