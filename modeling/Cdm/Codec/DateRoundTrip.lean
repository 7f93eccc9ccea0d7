import Cdm.Codec.DatePatterns

/-!
# The dates that a pattern keeps

What the fields of a pattern record is put together to a date and time, and what was recorded last
for a letter is what counts.  The text that is written for it is the one that was read unless a run
of a letter holds more than the last one of it.
-/

namespace Cdm

open Fallible Function List Option

namespace DateFormat

/-! ### What has been recorded -/

/-- The width of the last run of a letter. -/
def lastWidth (letter : Letter) : List Field → Option ℕ
  | [] => none
  | .number letter' width :: fields =>
    (lastWidth letter fields).or (if letter' = letter then some width else none)
  | _ :: fields => lastWidth letter fields

/-- What is recorded for a number. -/
def stored (letter : Letter) (width : ℕ) (number : ℤ) : ℤ :=
  match letter with
  | .year => if width = 2 then 2000 + number else number
  | .fraction => scaleFraction number width
  | _ => number

/-- What has been recorded for a letter. -/
def Parts.component (parts : Parts) : Letter → Option ℤ
  | .year => parts.year
  | .month => parts.month
  | .day => parts.day
  | .hour24 => parts.hour
  | .hour12 => parts.hour12
  | .minute => parts.minute
  | .second => parts.second
  | .fraction => parts.nanos

theorem Parts.component_record (parts : Parts) (letter letter' : Letter) (width : ℕ) (number : ℤ) :
    (parts.record letter' width number).component letter =
      if letter' = letter then some (stored letter width number) else parts.component letter := by
  cases letter' <;> cases letter <;> rfl

theorem exists_lastWidth {letter : Letter} {fields : List Field} {width : ℕ}
    (h : .number letter width ∈ fields) : ∃ last, lastWidth letter fields = some last := by
  induction fields with
  | nil => cases h
  | cons field fields ih =>
    rcases mem_cons.1 h with rfl | h
    · rw [lastWidth, if_pos rfl]
      cases lastWidth letter fields with
      | none => exact ⟨width, rfl⟩
      | some last => exact ⟨last, rfl⟩
    · obtain ⟨last, hlast⟩ := ih h
      cases field with
      | number letter' width' => exact ⟨last, by rw [lastWidth, hlast, some_or]⟩
      | literal text => exact ⟨last, hlast⟩
      | amPm => exact ⟨last, hlast⟩

section Recorded

variable [Chrono] (value : NaiveDateTime) (fields : List Field)

/-- The last run of a letter is what counts. -/
theorem component_recorded (letter : Letter) (parts : Parts) :
    (recorded value fields parts).component letter =
      ((lastWidth letter fields).map fun width =>
        stored letter width (writtenNumber value letter width)).or (parts.component letter) := by
  induction fields generalizing parts with
  | nil => rfl
  | cons field fields ih =>
    have hstep : recorded value (field :: fields) parts =
        recorded value fields (recordField value parts field) := rfl
    rw [hstep, ih]
    cases field with
    | literal text => rfl
    | number letter' width =>
      rw [recordField, Parts.component_record, lastWidth]
      cases lastWidth letter fields with
      | some last => rfl
      | none =>
        by_cases hletter : letter' = letter
        · subst hletter
          simp
        · simp [hletter]
    | amPm => cases letter <;> rfl

theorem component_recorded_empty (letter : Letter) :
    (recorded value fields {}).component letter = (lastWidth letter fields).map fun width =>
      (stored letter width (writtenNumber value letter width)) := by
  have hempty : Parts.component {} letter = none := by cases letter <;> rfl
  rw [component_recorded, hempty, or_none]

theorem pm_recorded (parts : Parts) : (recorded value fields parts).pm =
    if .amPm ∈ fields then some (decide (12 ≤ value.hour)) else parts.pm := by
  induction fields generalizing parts with
  | nil => rfl
  | cons field fields ih =>
    have hstep : recorded value (field :: fields) parts =
        recorded value fields (recordField value parts field) := rfl
    rw [hstep, ih]
    cases field with
    | literal text => simp [recordField]
    | number letter width => cases letter <;> simp [recordField, Parts.record]
    | amPm => simp [recordField]

end Recorded

/-! ### What is read back -/

/-- Digits that are cut off are zero, or are cut off again. -/
theorem div_mul_div_eq_iff (n a b : ℕ) : n / 10 ^ (9 - min a 9) * 10 ^ (9 - min a 9) /
    10 ^ (9 - min b 9) = n / 10 ^ (9 - min b 9) ↔
      10 ^ (min b 9 - min a 9) ∣ n / 10 ^ (9 - min b 9) := by
  rcases Nat.le_total (min b 9) (min a 9) with hle | hge
  · obtain ⟨more, hmore⟩ : ∃ more, 9 - min b 9 = 9 - min a 9 + more :=
      ⟨min a 9 - min b 9, by omega⟩
    have hzero : min b 9 - min a 9 = 0 := by omega
    rw [hzero, Nat.pow_zero]
    refine iff_of_true ?_ (Nat.one_dvd _)
    rw [hmore, pow_add, ← Nat.div_div_eq_div_mul, Nat.mul_div_cancel _ (by positivity),
      Nat.div_div_eq_div_mul]
  · have hsum : 9 - min a 9 = 9 - min b 9 + (min b 9 - min a 9) := by omega
    rw [hsum, pow_add, ← Nat.div_div_eq_div_mul, Nat.mul_comm (10 ^ (9 - min b 9)), ← Nat.mul_assoc,
      Nat.mul_div_cancel _ (by positivity)]
    exact (Nat.dvd_iff_div_mul_eq _ _).symm

section ReadBack

variable [Chrono]

section Values

variable (value : NaiveDateTime) (fields : List Field)

def readYear : ℤ :=
  match lastWidth .year fields with
  | none => 1970
  | some width => if width = 2 then 2000 + value.year % 100 else value.year

/-- A number with a default where there is no run of its letter. -/
def readNumber (letter : Letter) (default number : ℕ) : ℕ :=
  match lastWidth letter fields with
  | none => default
  | some _ => number

/-- The hour, from a clock with twelve hours if there is no other run. -/
def readHour : ℕ :=
  match lastWidth .hour24 fields, lastWidth .hour12 fields with
  | some _, _ => value.hour
  | none, some _ =>
    if .amPm ∈ fields ∧ 12 ≤ value.hour then value.hour % 12 + 12 else value.hour % 12
  | none, none => 0

/-- The nanoseconds, as many digits of them as the last run has. -/
def readNanos : ℕ :=
  match lastWidth .fraction fields with
  | none => 0
  | some width => writtenNanos value / 10 ^ (9 - min width 9) * 10 ^ (9 - min width 9)

/-- The date and time that is read back. -/
structure IsReadBack (value' : NaiveDateTime) : Prop where
  year : value'.year = readYear value fields
  month : value'.month = readNumber fields .month 1 value.month
  day : value'.day = readNumber fields .day 1 value.day
  hour : value'.hour = readHour value fields
  minute : value'.minute = readNumber fields .minute 0 value.minute
  second : value'.second = readNumber fields .second 0 value.second
  nanosecond : value'.nanosecond = readNanos value fields

end Values

omit [Chrono] in
theorem toU32_natCast {n : ℕ} (h : n < 2 ^ 32) : toU32 (n : ℤ) = some n := by
  rw [toU32, if_pos (by omega), Int.toNat_natCast]

omit [Chrono] in
theorem iterate_mul_ten {n : ℕ} : ∀ {steps : ℕ}, n * 10 ^ steps < 2 ^ 63 →
    (fun nanos : ℤ => min (2 ^ 63 - 1) (nanos * 10))^[steps] (n : ℤ) = (n * 10 ^ steps : ℕ)
  | 0, _ => by rw [iterate_zero, id, Nat.pow_zero, Nat.mul_one]
  | steps + 1, h => by
    have hless : n * 10 ^ steps < 2 ^ 63 :=
      (Nat.mul_le_mul_left n (Nat.pow_le_pow_right (by decide) steps.le_succ)).trans_lt h
    rw [Nat.pow_succ, ← Nat.mul_assoc] at h ⊢
    rw [iterate_succ_apply', iterate_mul_ten hless]
    omega

omit [Chrono] in
theorem iterate_div_ten (n : ℕ) : ∀ steps : ℕ,
    (fun nanos : ℤ => nanos / 10)^[steps] (n : ℤ) = (n / 10 ^ steps : ℕ)
  | 0 => by rw [iterate_zero, id, Nat.pow_zero, Nat.div_one]
  | steps + 1 => by
    rw [iterate_succ_apply', iterate_div_ten n steps, Nat.pow_succ,
      ← Nat.div_div_eq_div_mul]
    norm_cast

theorem scaleFraction_writtenNumber [LawfulChrono] (value : NaiveDateTime) (width : ℕ) :
    scaleFraction (writtenNumber value .fraction width) width =
      (writtenNanos value / 10 ^ (9 - min width 9) * 10 ^ (9 - min width 9) : ℕ) := by
  have hnanos := writtenNanos_lt value
  rw [scaleFraction]
  rcases Nat.le_total width 9 with hle | hge
  · have hlast : width - 9 = 0 := by omega
    have hproduct := Nat.div_mul_le_self (writtenNanos value) (10 ^ (9 - width))
    rw [hlast, iterate_zero, id]
    simp only [writtenNumber, hlast, Nat.pow_zero, Nat.mul_one, Nat.min_eq_left hle]
    exact iterate_mul_ten (by omega)
  · have hfirst : 9 - width = 0 := by omega
    rw [hfirst, iterate_zero, id, iterate_div_ten]
    simp only [writtenNumber, Nat.min_eq_right hge, Nat.sub_self, Nat.pow_zero, Nat.div_one,
      Nat.mul_one]
    rw [Nat.mul_div_cancel _ (by positivity)]

section Build

variable {value value' : NaiveDateTime} {fields : List Field}

theorem toU32_recorded (letter : Letter) (default number : ℕ) (hdefault : default < 2 ^ 32)
    (hnumber : number < 2 ^ 32)
    (hstored : ∀ width, stored letter width (writtenNumber value letter width) = number) :
    toU32 (((recorded value fields {}).component letter).getD default) =
      some (readNumber fields letter default number) := by
  rw [component_recorded_empty, readNumber]
  cases lastWidth letter fields with
  | none => exact toU32_natCast hdefault
  | some width => rw [map_some, getD_some, hstored, toU32_natCast hnumber]

theorem toI32_recorded (hyear : InDomain value) :
    toI32 ((recorded value fields {}).year.getD 1970) = some (readYear value fields) := by
  have hcomponent : (recorded value fields {}).year = _ :=
    component_recorded_empty value fields .year
  obtain ⟨hmin, hmax⟩ := hyear
  rw [hcomponent, readYear]
  cases lastWidth .year fields with
  | none => rfl
  | some width =>
    have hstored : stored .year width (writtenNumber value .year width) =
        if width = 2 then 2000 + value.year % 100 else value.year := by
      simp only [stored, writtenNumber]
      split_ifs <;> omega
    rw [map_some, getD_some, hstored]
    exact if_pos (by split_ifs <;> omega)

variable [LawfulChrono]

theorem hourOfDay_recorded :
    (recorded value fields {}).hourOfDay = some (readHour value fields) := by
  have hbounds := value.bounds
  have hhour : (recorded value fields {}).hour = _ :=
    component_recorded_empty value fields .hour24
  have hclock : (recorded value fields {}).hour12 = _ :=
    component_recorded_empty value fields .hour12
  rw [Parts.hourOfDay, hhour, hclock, pm_recorded, readHour]
  cases lastWidth .hour24 fields with
  | some width =>
    have hsmall : value.hour < 2 ^ 32 := by omega
    cases lastWidth .hour12 fields <;> exact toU32_natCast hsmall
  | none =>
    cases lastWidth .hour12 fields with
    | none => rfl
    | some width =>
      have hsmall : clockHour value.hour < 2 ^ 32 := by
        rw [clockHour]
        split_ifs <;> omega
      have hmod : clockHour value.hour % 12 = value.hour % 12 := by
        rw [clockHour]
        split_ifs <;> omega
      have hstored : stored .hour12 width (writtenNumber value .hour12 width) =
          (clockHour value.hour : ℤ) := rfl
      simp only [map_none, map_some, hstored, toU32_natCast hsmall,
        bind_eq_bind, bind_some, hmod]
      by_cases hmarker : Field.amPm ∈ fields <;> simp [hmarker]

theorem toU32_nanos_recorded :
    toU32 ((recorded value fields {}).nanos.getD 0) = some (readNanos value fields) := by
  have hnanos := writtenNanos_lt value
  have hcomponent : (recorded value fields {}).nanos = _ :=
    component_recorded_empty value fields .fraction
  rw [hcomponent, readNanos]
  cases lastWidth .fraction fields with
  | none => rfl
  | some width =>
    have hproduct := Nat.div_mul_le_self (writtenNanos value) (10 ^ (9 - min width 9))
    rw [map_some, getD_some, stored, scaleFraction_writtenNumber]
    exact toU32_natCast (by omega)

theorem readHour_lt : readHour value fields < 24 := by
  have hbounds := value.bounds
  have hhour : value.hour < 24 := by omega
  rw [readHour]
  cases lastWidth .hour24 fields with
  | some width => exact hhour
  | none =>
    cases lastWidth .hour12 fields with
    | none => exact Nat.succ_pos 23
    | some width =>
      simp only
      split_ifs <;> omega

theorem isTime_readBack : Chrono.isTime (readHour value fields)
    (readNumber fields .minute 0 value.minute) (readNumber fields .second 0 value.second)
      (readNanos value fields) = true := by
  have hbounds := value.bounds
  have hnumber (letter : Letter) {number : ℕ} (h : number < 60) :
      readNumber fields letter 0 number < 60 := by
    rw [readNumber]
    cases lastWidth letter fields with
    | none => exact Nat.succ_pos 59
    | some width => exact h
  refine LawfulChrono.isTime_iff.2
    ⟨readHour_lt, hnumber .minute (by omega), hnumber .second (by omega), .inl ?_⟩
  rw [readNanos]
  cases lastWidth .fraction fields with
  | none => exact Nat.pow_pos (by decide)
  | some width => exact (Nat.div_mul_le_self _ _).trans_lt (writtenNanos_lt value)

/-- What has been recorded is put together to the date and time that is read back. -/
theorem build_recorded (hyear : InDomain value) :
    (recorded value fields {}).build = some value' ↔ IsReadBack value fields value' := by
  have hbounds := value.bounds
  have hmonth : toU32 ((recorded value fields {}).month.getD 1) = some _ :=
    toU32_recorded .month 1 value.month (by decide) (by omega) fun _ => rfl
  have hday : toU32 ((recorded value fields {}).day.getD 1) = some _ :=
    toU32_recorded .day 1 value.day (by decide) (by omega) fun _ => rfl
  have hminute : toU32 ((recorded value fields {}).minute.getD 0) = some _ :=
    toU32_recorded .minute 0 value.minute (by decide) (by omega) fun _ => rfl
  have hsecond : toU32 ((recorded value fields {}).second.getD 0) = some _ :=
    toU32_recorded .second 0 value.second (by decide) (by omega) fun _ => rfl
  simp only [Parts.build, toI32_recorded hyear, hmonth, hday, hourOfDay_recorded, hminute, hsecond,
    toU32_nanos_recorded, bind_eq_bind, bind_some, isTime_readBack, dite_true]
  constructor
  · intro h
    split_ifs at h
    cases h
    exact ⟨rfl, rfl, rfl, rfl, rfl, rfl, rfl⟩
  · intro h
    have hdate := value'.isDate
    rw [h.year, h.month, h.day] at hdate
    rw [dif_pos hdate]
    cases value'
    simp only [Option.some.injEq, NaiveDateTime.mk.injEq]
    exact ⟨h.year.symm, h.month.symm, h.day.symm, h.hour.symm, h.minute.symm, h.second.symm,
      h.nanosecond.symm⟩

end Build

/-! ### What a pattern keeps -/

section Keeping

variable (value : NaiveDateTime) (fields : List Field)

/-- Where the last run of the year has two letters and another has not, the year is one of those
that two digits stand for. -/
def YearKept : Prop := lastWidth .year fields = some 2 →
  ∀ width, .number .year width ∈ fields → width ≠ 2 → 2000 ≤ value.year ∧ value.year ≤ 2099

/-- Without a year the day is one of a common year. -/
def DayKept : Prop :=
  lastWidth .year fields = none → lastWidth .month fields ≠ none → lastWidth .day fields ≠ none →
    ¬ (value.month = 2 ∧ value.day = 29)

/-- Without an hour a marker is that of the morning. -/
def HalfKept : Prop :=
  lastWidth .hour24 fields = none → lastWidth .hour12 fields = none → .amPm ∈ fields →
    value.hour < 12

/-- The last run of the fraction holds all the digits of the others that are not zero. -/
def DigitsKept : Prop :=
  ∀ last width, lastWidth .fraction fields = some last → .number .fraction width ∈ fields →
    10 ^ (min width 9 - min last 9) ∣ writtenNanos value / 10 ^ (9 - min width 9)

/-- The dates and times that a pattern keeps. -/
structure Kept : Prop where
  fits : ∀ field ∈ fields, FieldFits value field
  year : YearKept value fields
  day : DayKept value fields
  half : HalfKept value fields
  digits : DigitsKept value fields

end Keeping

section Same

variable {value value' : NaiveDateTime} {fields : List Field}

theorem readYear_bounds (hyear : InDomain value) :
    1 ≤ readYear value fields ∧ readYear value fields ≤ 9999 := by
  obtain ⟨hmin, hmax⟩ := hyear
  rw [readYear]
  cases lastWidth .year fields with
  | none => exact ⟨by norm_num, by norm_num⟩
  | some width =>
    dsimp only
    split_ifs <;> omega

theorem year_same (hyear : InDomain value) (h : IsReadBack value fields value') :
    (∀ width, .number .year width ∈ fields →
      writtenNumber value' .year width = writtenNumber value .year width) ↔
        YearKept value fields := by
  have hread := h.year
  have hpos := hyear.1
  rw [readYear] at hread
  simp only [writtenNumber, YearKept]
  cases hlast : lastWidth .year fields with
  | none =>
    refine iff_of_true (fun width hmem => ?_) fun h => by cases h
    obtain ⟨last, hlast'⟩ := exists_lastWidth hmem
    cases hlast.symm.trans hlast'
  | some last =>
    rw [hlast] at hread
    simp only at hread
    by_cases htwo : last = 2
    · rw [if_pos htwo] at hread
      refine ⟨fun hsame _ width hmem hne => ?_, fun hkept width hmem => ?_⟩
      · have hnumber := hsame width hmem
        rw [if_neg hne, if_neg hne, hread] at hnumber
        omega
      · split_ifs with hwidth
        · rw [hread]
          omega
        · have hrange := hkept (htwo ▸ rfl) width hmem hwidth
          rw [hread]
          omega
    · rw [if_neg htwo] at hread
      exact iff_of_true (fun _ _ => by rw [hread]) fun h => absurd (Option.some.inj h) htwo

variable [LawfulChrono]

/-- The day that is read back is one of its year but for the leap day. -/
theorem isDay_readBack : Gregorian.IsDay (readYear value fields)
    (readNumber fields .month 1 value.month) (readNumber fields .day 1 value.day) ↔
      DayKept value fields := by
  have hday := (LawfulChrono.isDate_iff.1 value.isDate).2
  have hbounds := value.bounds
  rw [DayKept, readNumber, readNumber]
  cases lastWidth .month fields with
  | none =>
    refine iff_of_true ?_ fun _ h => absurd rfl h
    have hlength (year : ℤ) : Gregorian.daysInMonth year 1 = 31 := rfl
    cases lastWidth .day fields with
    | none => exact ⟨le_rfl, by norm_num, le_rfl, by rw [hlength]; norm_num⟩
    | some width =>
      refine ⟨le_rfl, by norm_num, by dsimp only; omega, ?_⟩
      rw [hlength]
      dsimp only
      omega
  | some monthWidth =>
    cases lastWidth .day fields with
    | none =>
      refine iff_of_true ⟨hday.1, hday.2.1, le_rfl, ?_⟩ fun _ _ h => absurd rfl h
      exact le_trans (by norm_num) (Gregorian.daysInMonth_pos _ _)
    | some dayWidth =>
      by_cases hleap : value.month = 2 ∧ value.day = 29
      · simp only [hleap.1, hleap.2, Gregorian.isDay_leapDay]
        rw [hleap.1, hleap.2, Gregorian.isDay_leapDay] at hday
        rw [readYear]
        cases lastWidth .year fields with
        | none => simp [Gregorian.isLeapYear]
        | some width =>
          refine iff_of_true ?_ fun h => by cases h
          dsimp only
          split_ifs with htwo
          · rw [Gregorian.isLeapYear_iff] at hday ⊢
            omega
          · exact hday
      · exact iff_of_true (hday.of_ne hleap _) fun _ _ _ => hleap

/-- There is a date and time to read back but for the leap day. -/
theorem exists_isReadBack (hyear : InDomain value) :
    (∃ value', IsReadBack value fields value') ↔ DayKept value fields := by
  rw [← isDay_readBack]
  constructor
  · rintro ⟨value', h⟩
    have hdate := (LawfulChrono.isDate_iff.1 value'.isDate).2
    rwa [h.year, h.month, h.day] at hdate
  · intro hday
    have hbounds : 1 ≤ readYear value fields ∧ readYear value fields ≤ 9999 := readYear_bounds hyear
    have hdate := LawfulChrono.isDate_iff.2 ⟨by omega, hday⟩
    exact ⟨⟨_, _, _, _, _, _, _, hdate, isTime_readBack⟩, rfl, rfl, rfl, rfl, rfl, rfl, rfl⟩

theorem fraction_same (h : IsReadBack value fields value') :
    (∀ width, .number .fraction width ∈ fields →
      writtenNumber value' .fraction width = writtenNumber value .fraction width) ↔
        DigitsKept value fields := by
  have hnanos := h.nanosecond
  rw [readNanos] at hnanos
  have hwritten (last : ℕ) (hlast : lastWidth .fraction fields = some last) :
      writtenNanos value' =
        writtenNanos value / 10 ^ (9 - min last 9) * 10 ^ (9 - min last 9) := by
    rw [hlast] at hnanos
    have hproduct := Nat.div_mul_le_self (writtenNanos value) (10 ^ (9 - min last 9))
    rw [writtenNanos, hnanos, if_pos (hproduct.trans_lt (writtenNanos_lt value))]
  have hiff (last width : ℕ) (hlast : lastWidth .fraction fields = some last) :
      writtenNumber value' .fraction width = writtenNumber value .fraction width ↔
        10 ^ (min width 9 - min last 9) ∣ writtenNanos value / 10 ^ (9 - min width 9) := by
    simp only [writtenNumber]
    rw [Nat.mul_left_inj (by positivity), hwritten last hlast]
    exact div_mul_div_eq_iff _ _ _
  constructor
  · intro hsame last width hlast hmem
    exact (hiff last width hlast).1 (hsame width hmem)
  · intro hkept width hmem
    obtain ⟨last, hlast⟩ := exists_lastWidth hmem
    exact (hiff last width hlast).2 (hkept last width hlast hmem)

theorem half_same (h : IsReadBack value fields value') :
    (.amPm ∈ fields → (value'.hour < 12 ↔ value.hour < 12)) ↔ HalfKept value fields := by
  have hhour := h.hour
  have hbounds := value.bounds
  rw [readHour] at hhour
  rw [HalfKept]
  cases hlast : lastWidth .hour24 fields with
  | some width =>
    rw [hlast] at hhour
    exact iff_of_true (fun _ => by rw [hhour]) fun h => by cases h
  | none =>
    rw [hlast] at hhour
    cases hclock : lastWidth .hour12 fields with
    | some width =>
      rw [hclock] at hhour
      refine iff_of_true (fun hmarker => ?_) fun _ h => by cases h
      simp only [hmarker, true_and] at hhour
      split_ifs at hhour <;> omega
    | none =>
      rw [hclock] at hhour
      simp [hhour]

/-- The letters whose number is kept in any case. -/
theorem number_same (h : IsReadBack value fields value') {letter : Letter} {width : ℕ}
    (hmem : .number letter width ∈ fields) (hyear : letter ≠ .year) (hfraction : letter ≠ .fraction) :
    writtenNumber value' letter width = writtenNumber value letter width := by
  obtain ⟨last, hlast⟩ := exists_lastWidth hmem
  have hbounds := value.bounds
  cases letter with
  | year => exact absurd rfl hyear
  | fraction => exact absurd rfl hfraction
  | month =>
    change value'.month = value.month
    rw [h.month, readNumber, hlast]
  | day =>
    change value'.day = value.day
    rw [h.day, readNumber, hlast]
  | hour24 =>
    change value'.hour = value.hour
    rw [h.hour, readHour, hlast]
  | hour12 =>
    have hhour := h.hour
    rw [readHour, hlast] at hhour
    simp only [writtenNumber, clockHour]
    cases hfull : lastWidth .hour24 fields with
    | some width =>
      rw [hfull] at hhour
      rw [hhour]
    | none =>
      rw [hfull] at hhour
      have hmod : value'.hour % 12 = value.hour % 12 := by
        dsimp only at hhour
        split_ifs at hhour <;> omega
      rw [hmod]
  | minute =>
    change value'.minute = value.minute
    rw [h.minute, readNumber, hlast]
  | second =>
    change value'.second = value.second
    rw [h.second, readNumber, hlast]

theorem formatNumber_inj (hyear : InDomain value) (hyear' : InDomain value') {letter : Letter}
    {width : ℕ} : formatNumber value' letter width = formatNumber value letter width ↔
      writtenNumber value' letter width = writtenNumber value letter width := by
  refine ⟨fun h => ?_, fun h => ?_⟩
  · rw [← ofDigitChars_formatNumber hyear', h, ofDigitChars_formatNumber hyear]
  · by_cases hletter : letter = .fraction
    · subst hletter
      rw [formatNumber, formatNumber, formatFraction_eq, formatFraction_eq, h]
    · rw [formatNumber_eq_padded hyear' hletter, formatNumber_eq_padded hyear hletter, h]

/-- What is read back is written in the same way when nothing of it is lost. -/
theorem formatField_same_iff (hyear : InDomain value) (h : IsReadBack value fields value') :
    (∀ field ∈ fields, formatField value' field = formatField value field) ↔
      YearKept value fields ∧ HalfKept value fields ∧ DigitsKept value fields := by
  have hyear' : InDomain value' := by
    rw [InDomain, h.year]
    exact readYear_bounds hyear
  have hnumber {letter : Letter} {width : ℕ} :
      formatField value' (.number letter width) = formatField value (.number letter width) ↔
        writtenNumber value' letter width = writtenNumber value letter width :=
    formatNumber_inj hyear hyear'
  have hmarker : formatField value' .amPm = formatField value .amPm ↔
      (value'.hour < 12 ↔ value.hour < 12) := by
    simp only [formatField]
    by_cases hhour : value.hour < 12 <;> by_cases hhour' : value'.hour < 12 <;> simp [hhour, hhour']
  rw [← year_same hyear h, ← half_same h, ← fraction_same h]
  constructor
  · intro hsame
    exact ⟨fun width hmem => hnumber.1 (hsame _ hmem), fun hmem => hmarker.1 (hsame _ hmem),
      fun width hmem => hnumber.1 (hsame _ hmem)⟩
  · rintro ⟨hyears, hhalves, hfractions⟩ field hmem
    cases field with
    | literal text => rfl
    | number letter width =>
      refine hnumber.2 ?_
      by_cases hletter : letter = .year
      · subst hletter
        exact hyears width hmem
      · by_cases hletter' : letter = .fraction
        · subst hletter'
          exact hfractions width hmem
        · exact number_same h hmem hletter hletter'
    | amPm => exact hmarker.2 (hhalves hmem)

/-- The text of each field can be told from the whole. -/
theorem formatField_of_formatFields (hyear : InDomain value) (hyear' : InDomain value')
    (hends : Delimited FixedWidth fields)
    (h : formatFields value' fields = formatFields value fields) :
    ∀ field ∈ fields, formatField value' field = formatField value field := by
  induction fields with
  | nil => exact fun _ hmem => by cases hmem
  | cons field fields ih =>
    rw [formatFields_cons, formatFields_cons] at h
    have hhead : Delimited FixedWidth fields ∧
        formatField value' field = formatField value field := by
      cases field with
      | literal text => exact ⟨hends, rfl⟩
      | number letter width =>
        refine ⟨hends.2, ?_⟩
        rcases hends.1 with ⟨hwidth, hthree⟩ | hplain
        · have hlength {value : NaiveDateTime} (hyear : InDomain value) :
              (formatNumber value letter width).length = width :=
            length_formatNumber hyear hwidth fun hletter h => absurd h (hthree hletter)
          exact (append_inj h ((hlength hyear').trans (hlength hyear).symm)).1
        · have hdigits {value : NaiveDateTime} (hyear : InDomain value) :
              (formatNumber value letter width ++ formatFields value fields).takeWhile
                Char.isDigit = formatNumber value letter width := by
            rw [takeWhile_append_of_pos fun c hc => isDigit_of_mem_formatNumber hyear hc,
              (hplain.plainText value).takeWhile_eq_nil, append_nil]
          have htake := congrArg (List.takeWhile Char.isDigit) h
          simp only [formatField] at htake
          rwa [hdigits hyear, hdigits hyear'] at htake
      | amPm =>
        have hlength {value : NaiveDateTime} : (formatField value .amPm).length = 2 := by
          rw [formatField]
          split_ifs <;> rfl
        exact ⟨hends, (append_inj h (hlength.trans hlength.symm)).1⟩
    rw [hhead.2, append_cancel_left_eq] at h
    exact forall_mem_cons.2 ⟨hhead.2, ih hhead.1 h⟩

end Same

end ReadBack

/-! ### Round trips -/

/-- A field is as wide as its run is long. -/
theorem letterField_eq_ok {letter : Char} {width width' : ℕ} {letter' : Letter}
    {pattern : List Char} (h : letterField letter width pattern = .ok (.number letter' width')) :
    width' = width := by
  unfold letterField at h
  split at h
  case h_3 =>
    split_ifs at h
    cases h
    rfl
  all_goals first | (cases h; rfl) | cases h

theorem hasWidths_of_parseFields {pattern : List Char} :
    ∀ {fuel : ℕ} {chars : List Char} {fields : List Field},
      parseFields pattern fuel chars = .ok fields → HasWidths fields
  | 0, _, _, h => by
    cases h
    exact fun _ _ hmem => by cases hmem
  | _ + 1, [], _, h => by
    cases h
    exact fun _ _ hmem => by cases hmem
  | fuel + 1, c :: cs, fields, h => by
    have hliteral {text : List Char} {others : List Field} (hothers : HasWidths others) :
        HasWidths (.literal text :: others) := fun letter width hmem =>
      hothers letter width (mem_of_ne_of_mem (by simp) hmem)
    rw [parseFields] at h
    split_ifs at h
    · split at h
      · cases h
      · obtain ⟨others, hothers, hfields⟩ := bind_eq_ok.1 h
        cases hfields
        exact hliteral (hasWidths_of_parseFields hothers)
    · obtain ⟨others, hothers, hfields⟩ := bind_eq_ok.1 h
      cases hfields
      exact hliteral (hasWidths_of_parseFields hothers)
    · obtain ⟨field, hfield, h⟩ := bind_eq_ok.1 h
      obtain ⟨others, hothers, hfields⟩ := bind_eq_ok.1 h
      cases hfields
      intro letter width hmem
      rcases mem_cons.1 hmem with rfl | hmem
      · rw [letterField_eq_ok hfield]
        exact Nat.succ_pos _
      · exact hasWidths_of_parseFields hothers letter width hmem

theorem hasWidths_of_parse {pattern : List Char} {format : JavaDateFormat}
    (h : parse pattern = .ok format) : HasWidths format.fields := by
  rw [parse] at h
  split_ifs at h
  obtain ⟨fields, hfields, hformat⟩ := bind_eq_ok.1 h
  cases hformat
  exact hasWidths_of_parseFields hfields

section RoundTrip

variable [Chrono]

/-- The text that was written is read, and what was read is written in the same way. -/
def RoundTrips (format : JavaDateFormat) (value : NaiveDateTime) : Prop :=
  ∃ text value', formatDatetime format value = some text ∧
    parseDatetime format text = .ok value' ∧ formatDatetime format value' = some text

theorem parseDatetime_eq_ok {format : JavaDateFormat} {text : List Char} {value : NaiveDateTime} :
    parseDatetime format text = .ok value ↔
      ∃ parts, readFields format.fields text {} = some ([], parts) ∧ parts.build = some value := by
  rw [parseDatetime]
  constructor
  · intro h
    split at h
    · rename_i parts hread
      split at h
      · rename_i built hbuild
        cases h
        exact ⟨parts, hread, hbuild⟩
      · cases h
    · cases h
  · rintro ⟨parts, hread, hbuild⟩
    rw [hread]
    simp only [hbuild]

theorem FieldFits.isWritable {value : NaiveDateTime} {field : Field} (h : FieldFits value field) :
    field.isWritable = true := by
  cases field with
  | literal text => rfl
  | number letter width =>
    cases letter with
    | year => exact decide_eq_true h.1
    | fraction => rfl
    | _ => exact decide_eq_true h
  | amPm => rfl

theorem formatDatetime_eq_some {format : JavaDateFormat} {value : NaiveDateTime}
    {text : List Char} : formatDatetime format value = some text ↔
      format.fields.all Field.isWritable = true ∧ formatFields value format.fields = text := by
  rw [formatDatetime]
  split_ifs with h <;> simp [h]

variable [LawfulChrono] {value : NaiveDateTime} {format : JavaDateFormat}

/-- When all numbers fit, what is read back decides. -/
theorem roundTrips_iff_isReadBack (hyear : InDomain value) (hwidths : HasWidths format.fields)
    (hends : Delimited Pinned format.fields)
    (hfits : ∀ field ∈ format.fields, FieldFits value field) :
    RoundTrips format value ↔ ∃ value', IsReadBack value format.fields value' ∧
      formatFields value' format.fields = formatFields value format.fields := by
  have hwritable : format.fields.all Field.isWritable = true :=
    all_eq_true.2 fun field hmem => (hfits field hmem).isWritable
  have hread := readFields_formatFields hyear hwidths hends hfits {}
  constructor
  · rintro ⟨text, value', htext, hparse, hsame⟩
    obtain ⟨-, rfl⟩ := formatDatetime_eq_some.1 htext
    obtain ⟨parts, hparts, hbuild⟩ := parseDatetime_eq_ok.1 hparse
    rw [hread] at hparts
    cases hparts
    exact ⟨value', (build_recorded hyear).1 hbuild, (formatDatetime_eq_some.1 hsame).2⟩
  · rintro ⟨value', hback, hsame⟩
    exact ⟨_, value', formatDatetime_eq_some.2 ⟨hwritable, rfl⟩,
      parseDatetime_eq_ok.2 ⟨_, hread, (build_recorded hyear).2 hback⟩,
      formatDatetime_eq_some.2 ⟨hwritable, hsame⟩⟩

/-- A text is not read back when one of its numbers does not fit. -/
theorem fieldFits_of_roundTrips (hyear : InDomain value) (hwidths : HasWidths format.fields)
    (hends : Delimited FixedWidth format.fields) (h : RoundTrips format value) :
    ∀ field ∈ format.fields, FieldFits value field := by
  obtain ⟨text, value', htext, hparse, -⟩ := h
  obtain ⟨hwritable, rfl⟩ := formatDatetime_eq_some.1 htext
  obtain ⟨parts, hparts, -⟩ := parseDatetime_eq_ok.1 hparse
  by_contra hfits
  exact readFields_ne hyear hwidths hends hwritable hfits {} parts hparts

/-- A pattern whose numbers can be told apart keeps exactly the dates and times whose numbers are
read as they were written, none of which is lost to a run that comes later or to a default.  Where
years of more than three digits may run into the next number, it keeps these at least. -/
theorem roundTrips_iff {pattern : List Char} (hformat : parse pattern = .ok format)
    (hyear : InDomain value) :
    (Delimited Pinned format.fields → Kept value format.fields → RoundTrips format value) ∧
      (Delimited FixedWidth format.fields →
        (RoundTrips format value ↔ Kept value format.fields)) := by
  have hwidths := hasWidths_of_parse hformat
  have hkeep (hends : Delimited Pinned format.fields) (h : Kept value format.fields) :
      RoundTrips format value := by
    obtain ⟨value', hback⟩ := (exists_isReadBack hyear).2 h.day
    refine (roundTrips_iff_isReadBack hyear hwidths hends h.fits).2 ⟨value', hback, ?_⟩
    exact flatMap_congr ((formatField_same_iff hyear hback).2 ⟨h.year, h.half, h.digits⟩)
  refine ⟨hkeep, fun hends => ⟨fun h => ?_, hkeep (hends.mono fun _ _ => And.left)⟩⟩
  have hfits := fieldFits_of_roundTrips hyear hwidths hends h
  obtain ⟨value', hback, hsame⟩ :=
    (roundTrips_iff_isReadBack hyear hwidths (hends.mono fun _ _ => And.left) hfits).1 h
  have hyear' : InDomain value' := by
    rw [InDomain, hback.year]
    exact readYear_bounds hyear
  obtain ⟨hyears, hhalves, hdigits⟩ := (formatField_same_iff hyear hback).1
    (formatField_of_formatFields hyear hyear' hends hsame)
  exact ⟨hfits, hyears, (exists_isReadBack hyear).1 ⟨value', hback⟩, hhalves, hdigits⟩

end RoundTrip

/-! ### Patterns and an evening -/

section Sample

local instance : Chrono := Chrono.gregorian

/-- `2022-04-12 21:57:15.123456789` -/
def evening : NaiveDateTime := ⟨2022, 4, 12, 21, 57, 15, 123456789, by decide, by decide⟩

/-- `yyyyMMddHHmmss` -/
def compact : JavaDateFormat where
  pattern := "yyyyMMddHHmmss".toList
  fields := [.number .year 4, .number .month 2, .number .day 2, .number .hour24 2,
    .number .minute 2, .number .second 2]

/-- `y-MM-dd`, whose year is written in full and read up to its second digit. -/
def shortYear : JavaDateFormat where
  pattern := "y-MM-dd".toList
  fields := [.number .year 1, .literal ['-'], .number .month 2, .literal ['-'], .number .day 2]

theorem roundTrips_compact : RoundTrips compact evening := by
  have hformat : parse compact.pattern = .ok compact := by decide
  have hyear : InDomain evening := ⟨by decide, by decide⟩
  have hfour : FixedWidth .year 4 := ⟨by decide, fun _ => by decide⟩
  have htwo (letter : Letter) : FixedWidth letter 2 := ⟨by decide, fun _ => by decide⟩
  have hends : Delimited FixedWidth compact.fields :=
    ⟨.inl hfour, .inl (htwo _), .inl (htwo _), .inl (htwo _), .inl (htwo _), .inl (htwo _), trivial⟩
  refine ((roundTrips_iff hformat hyear).2 hends).2 ?_
  have hlast : lastWidth .year compact.fields = some 4 := rfl
  have hhour : lastWidth .hour24 compact.fields = some 2 := rfl
  have hfraction : lastWidth .fraction compact.fields = none := rfl
  refine ⟨fun field hmem => ?_, fun h => ?_, fun h => ?_, fun h => ?_, fun last width h => ?_⟩
  case refine_2 => rw [hlast] at h; cases h
  case refine_3 => rw [hlast] at h; cases h
  case refine_4 => rw [hhour] at h; cases h
  case refine_5 => rw [hfraction] at h; cases h
  have hfields : compact.fields = [.number .year 4, .number .month 2, .number .day 2,
    .number .hour24 2, .number .minute 2, .number .second 2] := rfl
  simp only [hfields, mem_cons, not_mem_nil, or_false] at hmem
  have hsmall : 2 < 2 ^ 16 := by norm_num
  rcases hmem with rfl | rfl | rfl | rfl | rfl | rfl
  · exact ⟨by norm_num, fun h => absurd h (by decide), fun h => absurd h (by decide)⟩
  all_goals exact hsmall

theorem not_roundTrips_shortYear : parse shortYear.pattern = .ok shortYear ∧
    Delimited FixedWidth shortYear.fields ∧ InDomain evening ∧ ¬ RoundTrips shortYear evening := by
  refine ⟨by decide, ?_, ⟨by decide, by decide⟩, ?_⟩
  · have htwo (letter : Letter) : FixedWidth letter 2 := ⟨by decide, fun _ => by decide⟩
    exact ⟨.inr ⟨'-', [], rfl, rfl⟩, .inl (htwo _), .inl (htwo _), trivial⟩
  · rintro ⟨text, value, htext, hparse, -⟩
    have hwritten : formatDatetime shortYear evening = some "2022-04-12".toList := by decide
    obtain rfl := Option.some.inj (htext.symm.trans hwritten)
    obtain ⟨parts, hread, -⟩ := parseDatetime_eq_ok.1 hparse
    have hnone : readFields shortYear.fields "2022-04-12".toList {} = none := by decide
    cases hread.symm.trans hnone

end Sample

end DateFormat

end Cdm
