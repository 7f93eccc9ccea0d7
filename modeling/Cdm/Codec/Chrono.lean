import Cdm.Lib.Gregorian

/-!
# Dates and times of `chrono`

The dates and times of `chrono` are a parameter: which of them exist, and the instants of UTC, as
milliseconds from the first of 1970.  What the code relies on is their documentation.
-/

namespace Cdm

/-- The constructors of `chrono`: whether they give a value. -/
class Chrono where
  /-- `NaiveDate::from_ymd_opt`. -/
  isDate : ℤ → ℕ → ℕ → Bool
  /-- `NaiveDate::and_hms_nano_opt`. -/
  isTime : ℕ → ℕ → ℕ → ℕ → Bool

/-- A day that exists. -/
structure NaiveDate [Chrono] where
  year : ℤ
  month : ℕ
  day : ℕ
  isDate : Chrono.isDate year month day = true

/-- A date and time that exists. -/
@[ext]
structure NaiveDateTime [Chrono] where
  year : ℤ
  month : ℕ
  day : ℕ
  hour : ℕ
  minute : ℕ
  second : ℕ
  nanosecond : ℕ
  isDate : Chrono.isDate year month day = true
  isTime : Chrono.isTime hour minute second nanosecond = true

/-- `DateTime<Utc>` of `chrono`. -/
class ChronoUtc extends Chrono where
  /-- `DateTime::timestamp_millis`. -/
  timestampMillis : NaiveDateTime → ℤ
  /-- `DateTime::from_timestamp_millis`. -/
  fromTimestampMillis : ℤ → Option NaiveDateTime
  /-- `DateTime::checked_add_signed`, of milliseconds. -/
  checkedAdd : NaiveDateTime → ℤ → Option NaiveDateTime
  /-- `NaiveDate::succ_opt`. -/
  succOpt : NaiveDate → Option NaiveDate

/-- The days of the Gregorian calendar within the range of the type, and the times of a day, with a
leap second at the end of a minute. -/
class LawfulChrono [Chrono] : Prop where
  isDate_iff : ∀ {year : ℤ} {month day : ℕ}, Chrono.isDate year month day = true ↔
    (-262143 ≤ year ∧ year ≤ 262142) ∧ Gregorian.IsDay year month day
  isTime_iff : ∀ {hour minute second nano : ℕ}, Chrono.isTime hour minute second nano = true ↔
    hour < 24 ∧ minute < 60 ∧ second < 60 ∧ (nano < 10 ^ 9 ∨ second = 59 ∧ nano < 2 * 10 ^ 9)

/-- The days of the type, by their number. -/
theorem Chrono.isDate_iff_dayNumber [Chrono] [LawfulChrono] {year : ℤ} {month day : ℕ}
    (h : Gregorian.IsDay year month day) : Chrono.isDate year month day = true ↔
      Gregorian.yearStart (-262143) ≤ Gregorian.dayNumber year month day ∧
        Gregorian.dayNumber year month day < Gregorian.yearStart 262143 := by
  have hbounds := h.yearStart_bounds
  rw [LawfulChrono.isDate_iff]
  constructor
  · rintro ⟨⟨hmin, hmax⟩, -⟩
    have hfirst := Gregorian.yearStart_mono hmin
    have hlast := Gregorian.yearStart_mono (show year + 1 ≤ 262143 by omega)
    omega
  · rintro ⟨hmin, hmax⟩
    refine ⟨⟨?_, ?_⟩, h⟩
    · by_contra hsmall
      have hmono := Gregorian.yearStart_mono (show year + 1 ≤ -262143 by omega)
      omega
    · by_contra hlarge
      have hmono := Gregorian.yearStart_mono (show 262143 ≤ year by omega)
      omega

namespace NaiveDateTime

variable [Chrono]

theorem bounds [LawfulChrono] (value : NaiveDateTime) :
    1 ≤ value.month ∧ value.month ≤ 12 ∧ 1 ≤ value.day ∧ value.day ≤ 31 ∧
      value.hour < 24 ∧ value.minute < 60 ∧ value.second < 60 ∧
        value.nanosecond < 2 * 10 ^ 9 := by
  obtain ⟨-, hmonth, hmonth', hday, hday'⟩ := LawfulChrono.isDate_iff.1 value.isDate
  obtain ⟨hhour, hminute, hsecond, hnano⟩ := LawfulChrono.isTime_iff.1 value.isTime
  have hlength := Gregorian.daysInMonth_le value.year value.month
  omega

/-- A value of whole milliseconds, outside of leap seconds. -/
def IsWhole (value : NaiveDateTime) : Prop :=
  value.nanosecond < 10 ^ 9 ∧ value.nanosecond % 10 ^ 6 = 0

/-- The milliseconds of the day. -/
def millisOfDay (value : NaiveDateTime) : ℕ :=
  value.hour * 3600000 + value.minute * 60000 + value.second * 1000 + value.nanosecond / 10 ^ 6

/-- The milliseconds from the first of 1970. -/
def millis (value : NaiveDateTime) : ℤ :=
  Gregorian.dayNumber value.year value.month value.day * 86400000 + value.millisOfDay

/-- The value of whole milliseconds. -/
def ofMillis (millis : ℤ) : Option NaiveDateTime :=
  let day := Gregorian.ofDayNumber (millis / 86400000)
  let time := (millis % 86400000).toNat
  if hdate : Chrono.isDate day.1 day.2.1 day.2.2 = true then
    if htime : Chrono.isTime (time / 3600000) (time / 60000 % 60) (time / 1000 % 60)
        (time % 1000 * 10 ^ 6) = true then
      some ⟨_, _, _, _, _, _, _, hdate, htime⟩
    else none
  else none

variable [LawfulChrono]

theorem IsWhole.millisOfDay_lt {value : NaiveDateTime} (h : value.IsWhole) :
    value.millisOfDay < 86400000 := by
  have hbounds := value.bounds
  have hnano := h.1
  simp only [millisOfDay]
  omega

theorem isDay (value : NaiveDateTime) : Gregorian.IsDay value.year value.month value.day :=
  (LawfulChrono.isDate_iff.1 value.isDate).2

theorem isTime_of_lt {hour minute second millis : ℕ} (hhour : hour < 24) (hminute : minute < 60)
    (hsecond : second < 60) (hmillis : millis < 1000) :
    Chrono.isTime hour minute second (millis * 10 ^ 6) = true :=
  LawfulChrono.isTime_iff.2 ⟨hhour, hminute, hsecond, .inl (by omega)⟩

/-- The range of the type, in milliseconds. -/
theorem IsWhole.millis_bounds {value : NaiveDateTime} (h : value.IsWhole) :
    Gregorian.yearStart (-262143) * 86400000 ≤ value.millis ∧
      value.millis < Gregorian.yearStart 262143 * 86400000 := by
  have hday := (Chrono.isDate_iff_dayNumber value.isDay).1 value.isDate
  have htime := h.millisOfDay_lt
  simp only [millis]
  omega

/-- Values of whole milliseconds are told apart by these. -/
theorem IsWhole.ext {value value' : NaiveDateTime} (h : value.IsWhole) (h' : value'.IsWhole)
    (heq : value.millis = value'.millis) : value = value' := by
  have hlt := h.millisOfDay_lt
  have hlt' := h'.millisOfDay_lt
  simp only [millis] at heq
  obtain ⟨hyear, hmonth, hday⟩ := Gregorian.dayNumber_inj value.isDay value'.isDay (by omega)
  have htime : value.millisOfDay = value'.millisOfDay := by
    rw [hyear, hmonth, hday] at heq
    omega
  obtain ⟨hnano, hwhole⟩ := h
  obtain ⟨hnano', hwhole'⟩ := h'
  have hbounds := value.bounds
  have hbounds' := value'.bounds
  simp only [millisOfDay] at htime
  ext <;> omega

omit [LawfulChrono] in
theorem ofMillis_spec {millis : ℤ} {value : NaiveDateTime} (h : ofMillis millis = some value) :
    value.IsWhole ∧ value.millis = millis := by
  obtain ⟨-, hnumber⟩ := Gregorian.dayNumber_ofDayNumber (millis / 86400000)
  simp only [ofMillis] at h
  split_ifs at h
  cases h
  refine ⟨⟨?_, ?_⟩, ?_⟩
  · simp only
    omega
  · simp only
    omega
  · simp only [NaiveDateTime.millis, millisOfDay]
    rw [hnumber]
    omega

/-- The milliseconds that are a date and time. -/
theorem ofMillis_isSome {millis : ℤ} : (ofMillis millis).isSome = true ↔
    Gregorian.yearStart (-262143) * 86400000 ≤ millis ∧
      millis < Gregorian.yearStart 262143 * 86400000 := by
  constructor
  · intro h
    obtain ⟨value, hvalue⟩ := Option.isSome_iff_exists.1 h
    obtain ⟨hwhole, rfl⟩ := ofMillis_spec hvalue
    exact hwhole.millis_bounds
  · rintro ⟨hmin, hmax⟩
    obtain ⟨hday, hnumber⟩ := Gregorian.dayNumber_ofDayNumber (millis / 86400000)
    have hdate := (Chrono.isDate_iff_dayNumber hday).2 (by rw [hnumber]; omega)
    simp only [ofMillis, dif_pos hdate]
    rw [dif_pos (isTime_of_lt (by omega) (by omega) (by omega) (by omega))]
    rfl

/-- A value of whole milliseconds is the one of its milliseconds. -/
theorem ofMillis_eq_some {millis : ℤ} {value : NaiveDateTime} :
    ofMillis millis = some value ↔ value.IsWhole ∧ value.millis = millis := by
  refine ⟨ofMillis_spec, ?_⟩
  rintro ⟨hwhole, rfl⟩
  obtain ⟨found, hfound⟩ := Option.isSome_iff_exists.1 (ofMillis_isSome.2 hwhole.millis_bounds)
  obtain ⟨hwhole', hmillis⟩ := ofMillis_spec hfound
  rw [hfound, hwhole'.ext hwhole hmillis]

end NaiveDateTime

/-- The day of a number, in the years of the type. -/
def NaiveDate.ofDayNumber [Chrono] (number : ℤ) : Option NaiveDate :=
  let day := Gregorian.ofDayNumber number
  if hdate : Chrono.isDate day.1 day.2.1 day.2.2 = true then some ⟨_, _, _, hdate⟩ else none

/-- The numbers that are a day of the type. -/
theorem NaiveDate.ofDayNumber_isSome [Chrono] [LawfulChrono] {number : ℤ} :
    (NaiveDate.ofDayNumber number).isSome = true ↔
      Gregorian.yearStart (-262143) ≤ number ∧ number < Gregorian.yearStart 262143 := by
  obtain ⟨hday, hnumber⟩ := Gregorian.dayNumber_ofDayNumber number
  have hiff := Chrono.isDate_iff_dayNumber hday
  rw [hnumber] at hiff
  rw [← hiff, NaiveDate.ofDayNumber]
  split_ifs with hdate
  · exact iff_of_true rfl hdate
  · exact iff_of_false nofun hdate

theorem NaiveDate.ofDayNumber_eq_some [Chrono] [LawfulChrono] {number : ℤ} {date : NaiveDate} :
    NaiveDate.ofDayNumber number = some date ↔
      Gregorian.dayNumber date.year date.month date.day = number := by
  obtain ⟨hday, hnumber⟩ := Gregorian.dayNumber_ofDayNumber number
  constructor
  · intro h
    simp only [NaiveDate.ofDayNumber] at h
    split_ifs at h
    cases h
    exact hnumber
  · intro h
    obtain ⟨year, month, day, hdate⟩ := date
    obtain ⟨rfl, rfl, rfl⟩ := Gregorian.dayNumber_inj hday (LawfulChrono.isDate_iff.1 hdate).2
      (hnumber.trans h.symm)
    exact dif_pos hdate

/-- The instants of UTC: their milliseconds, which are no more than the whole ones of them, and what
behaves like a number of these. -/
class LawfulChronoUtc [ChronoUtc] : Prop extends LawfulChrono where
  timestampMillis_eq : ∀ value : NaiveDateTime, ChronoUtc.timestampMillis value = value.millis
  fromTimestampMillis_eq_some : ∀ {millis : ℤ} {value : NaiveDateTime},
    ChronoUtc.fromTimestampMillis millis = some value ↔
      value.IsWhole ∧ ChronoUtc.timestampMillis value = millis
  checkedAdd_eq_some : ∀ {value next : NaiveDateTime} {millis : ℤ}, value.IsWhole →
    (ChronoUtc.checkedAdd value millis = some next ↔
      next.IsWhole ∧ ChronoUtc.timestampMillis next = ChronoUtc.timestampMillis value + millis)
  succOpt_eq_some : ∀ {date next : NaiveDate}, ChronoUtc.succOpt date = some next ↔
    Gregorian.dayNumber next.year next.month next.day =
      Gregorian.dayNumber date.year date.month date.day + 1

namespace ChronoUtc

variable [ChronoUtc] [LawfulChronoUtc]

theorem fromTimestampMillis_eq (millis : ℤ) :
    ChronoUtc.fromTimestampMillis millis = NaiveDateTime.ofMillis millis := by
  ext value
  rw [LawfulChronoUtc.fromTimestampMillis_eq_some, NaiveDateTime.ofMillis_eq_some,
    LawfulChronoUtc.timestampMillis_eq]

theorem checkedAdd_eq {value : NaiveDateTime} (h : value.IsWhole) (millis : ℤ) :
    ChronoUtc.checkedAdd value millis = NaiveDateTime.ofMillis (value.millis + millis) := by
  ext next
  rw [LawfulChronoUtc.checkedAdd_eq_some h, NaiveDateTime.ofMillis_eq_some,
    LawfulChronoUtc.timestampMillis_eq, LawfulChronoUtc.timestampMillis_eq]

theorem succOpt_eq (date : NaiveDate) : ChronoUtc.succOpt date =
    NaiveDate.ofDayNumber (Gregorian.dayNumber date.year date.month date.day + 1) := by
  ext next
  rw [LawfulChronoUtc.succOpt_eq_some, NaiveDate.ofDayNumber_eq_some]

end ChronoUtc

/-! ### The calendar of the type -/

/-- The proleptic Gregorian calendar, in the years of the type. -/
@[reducible] def Chrono.gregorian : Chrono where
  isDate year month day :=
    decide ((-262143 ≤ year ∧ year ≤ 262142) ∧ Gregorian.IsDay year month day)
  isTime hour minute second nano := decide (hour < 24 ∧ minute < 60 ∧ second < 60 ∧
    (nano < 10 ^ 9 ∨ second = 59 ∧ nano < 2 * 10 ^ 9))

instance : @LawfulChrono Chrono.gregorian :=
  @LawfulChrono.mk Chrono.gregorian decide_eq_true_iff decide_eq_true_iff

/-- The next day. -/
def NaiveDate.succ [Chrono] (date : NaiveDate) : Option NaiveDate :=
  NaiveDate.ofDayNumber (Gregorian.dayNumber date.year date.month date.day + 1)

/-- UTC, in the proleptic Gregorian calendar. -/
@[reducible] def ChronoUtc.gregorian : ChronoUtc where
  toChrono := Chrono.gregorian
  timestampMillis := @NaiveDateTime.millis Chrono.gregorian
  fromTimestampMillis := @NaiveDateTime.ofMillis Chrono.gregorian
  checkedAdd value millis := @NaiveDateTime.ofMillis Chrono.gregorian
    (@NaiveDateTime.millis Chrono.gregorian value + millis)
  succOpt := @NaiveDate.succ Chrono.gregorian

instance : @LawfulChronoUtc ChronoUtc.gregorian :=
  letI := ChronoUtc.gregorian
  { isDate_iff := LawfulChrono.isDate_iff
    isTime_iff := LawfulChrono.isTime_iff
    timestampMillis_eq := fun _ => rfl
    fromTimestampMillis_eq_some := NaiveDateTime.ofMillis_eq_some
    checkedAdd_eq_some := fun _ => NaiveDateTime.ofMillis_eq_some
    succOpt_eq_some := NaiveDate.ofDayNumber_eq_some }

end Cdm
