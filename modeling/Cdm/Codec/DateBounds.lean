import Cdm.Codec.DateRange

/-!
# Reading the bound of a date range

A text denotes numbers apart from whether there is such an instant.  Reading fails when it denotes
none, and panics when its fraction is cut within a character or when an upper bound lies in the last
hour, minute or second of the calendar.
-/

namespace Cdm

open Text
open Gregorian Option
open Fallible

namespace DateRange

/-! ### Numbers -/

/-- The number of a piece, if there is one. -/
def IsNumber (piece : Option (List Char)) (default n : ℕ) : Prop :=
  match piece with
  | none => n = default
  | some text => parseU32 text = some n

/-- The number of milliseconds of a fraction, if there is one. -/
def IsFraction (fraction : Option (List Char)) (millis : ℕ) : Prop :=
  match fraction with
  | none => millis = 0
  | some text => ∃ first, truncate 3 text = some first ∧
      parseU32 (first ++ List.replicate (3 - utf8Len first) '0') = some millis

/-- The seconds of a time, before the point. -/
def secondText (times : List (List Char)) : Option (List Char) :=
  times[2]?.map fun field => ((splitOnce '.' field).map Prod.fst).getD field

/-- What stands behind the point. -/
def fractionText (times : List (List Char)) : Option (List Char) :=
  times[2]?.bind fun field => (splitOnce '.' field).map Prod.snd

/-- The numbers of a bound, but for its fraction. -/
structure Numbers (text : List Char) (fields : BoundFields) : Prop where
  year : IsNumber (dateFields text)[0]? 0 fields.year
  small : fields.year < 2 ^ 31
  month : IsNumber (dateFields text)[1]? 1 fields.month
  day : IsNumber (dateFields text)[2]? 1 fields.day
  hour : IsNumber (timeFields text)[0]? 0 fields.hour
  minute : IsNumber (timeFields text)[1]? 0 fields.minute
  second : IsNumber (secondText (timeFields text)) 0 fields.second

/-- The numbers of a bound, and the precision it is written with. -/
structure Denotes (text : List Char) (fields : BoundFields) : Prop extends Numbers text fields where
  millis : IsFraction (fractionText (timeFields text)) fields.millis
  precision : fields.precision = precisionOf (dateFields text) (timeFields text)

theorem number_eq_ok {value : Option (List Char)} {what : String} {n : ℕ} :
    number value what = .ok n ↔ ∃ text, value = some text ∧ parseU32 text = some n := by
  cases value with
  | none => exact iff_of_false nofun fun ⟨_, h, _⟩ => nomatch h
  | some text =>
    simp only [number, Option.some.injEq, exists_eq_left']
    cases parseU32 text with
    | none => exact iff_of_false nofun nofun
    | some m => simp

theorem number_ne_panic (value : Option (List Char)) (what : String) :
    number value what ≠ .error .panic := by
  cases value with
  | none => exact nofun
  | some text =>
    simp only [number]
    cases parseU32 text <;> exact nofun

theorem numberOr_eq_ok {pieces : List (List Char)} {index default n : ℕ} {what : String} :
    numberOr pieces index default what = .ok n ↔ IsNumber pieces[index]? default n := by
  rw [numberOr]
  split_ifs with h
  · rw [List.getElem?_eq_none h]
    simp [IsNumber, eq_comm]
  · rw [List.getElem?_eq_getElem (not_le.1 h), number_eq_ok]
    simp [IsNumber]

theorem numberOr_ne_panic (pieces : List (List Char)) (index default : ℕ) (what : String) :
    numberOr pieces index default what ≠ .error .panic := by
  rw [numberOr]
  split_ifs
  · exact nofun
  · exact number_ne_panic _ _

theorem readYear_eq_ok {text : List Char} {year : ℕ} : readYear (dateFields text) = .ok year ↔
    IsNumber (dateFields text)[0]? 0 year ∧ year < 2 ^ 31 := by
  have hpos : 0 < (dateFields text).length := List.length_pos_iff.2 (splitOn_ne_nil _ _)
  rw [readYear, bind_eq_ok, List.getElem?_eq_getElem hpos]
  simp only [number_eq_ok, IsNumber, Option.some.injEq, exists_eq_left']
  constructor
  · rintro ⟨n, hn, h⟩
    split_ifs at h with hsmall
    cases h
    exact ⟨hn, hsmall⟩
  · rintro ⟨hyear, hsmall⟩
    exact ⟨year, hyear, if_pos hsmall⟩

theorem readYear_ne_panic (dates : List (List Char)) : readYear dates ≠ .error .panic := by
  rw [readYear, Ne, bind_eq_error, not_or]
  refine ⟨number_ne_panic _ _, ?_⟩
  rintro ⟨n, -, h⟩
  split_ifs at h
  cases h

theorem readFraction_eq_ok {fraction : List Char} {millis : ℕ} :
    readFraction fraction = .ok millis ↔ IsFraction (some fraction) millis := by
  rw [readFraction, IsFraction]
  cases truncate 3 fraction with
  | none => exact iff_of_false nofun fun ⟨_, h, _⟩ => nomatch h
  | some first =>
    simp only [Option.some.injEq, exists_eq_left']
    cases parseU32 (first ++ List.replicate (3 - utf8Len first) '0') with
    | none => exact iff_of_false nofun nofun
    | some m => simp

theorem readFraction_eq_panic {fraction : List Char} :
    readFraction fraction = .error .panic ↔ Text.CutAt 3 fraction := by
  rw [readFraction, ← truncate_eq_none]
  cases truncate 3 fraction with
  | none => exact iff_of_true rfl rfl
  | some first =>
    refine iff_of_false ?_ nofun
    dsimp only
    cases parseU32 (first ++ List.replicate (3 - utf8Len first) '0') <;> exact nofun

theorem secondAndMillis_eq_ok {times : List (List Char)} {second millis : ℕ} :
    secondAndMillis times[2]? = .ok (second, millis) ↔
      IsNumber (secondText times) 0 second ∧ IsFraction (fractionText times) millis := by
  rw [secondText, fractionText]
  cases times[2]? with
  | none => simp [secondAndMillis, IsNumber, IsFraction, eq_comm]
  | some field =>
    simp only [secondAndMillis, map_some, bind_some, IsNumber]
    cases splitOnce '.' field with
    | none =>
      rw [bind_eq_ok]
      constructor
      · rintro ⟨n, hn, h⟩
        cases h
        obtain ⟨text, htext, hnumber⟩ := number_eq_ok.1 hn
        cases htext
        exact ⟨hnumber, rfl⟩
      · rintro ⟨hnumber, rfl⟩
        exact ⟨second, number_eq_ok.2 ⟨_, rfl, hnumber⟩, rfl⟩
    | some parts =>
      simp only [map_some, getD_some]
      rw [bind_eq_ok]
      constructor
      · rintro ⟨n, hn, h⟩
        obtain ⟨m, hm, h⟩ := bind_eq_ok.1 h
        cases h
        obtain ⟨text, htext, hnumber⟩ := number_eq_ok.1 hn
        cases htext
        exact ⟨hnumber, readFraction_eq_ok.1 hm⟩
      · rintro ⟨hnumber, hfraction⟩
        exact ⟨second, number_eq_ok.2 ⟨_, rfl, hnumber⟩,
          bind_eq_ok.2 ⟨millis, readFraction_eq_ok.2 hfraction, rfl⟩⟩

/-- A fraction is cut after the seconds have been read. -/
theorem secondAndMillis_eq_panic {times : List (List Char)} :
    secondAndMillis times[2]? = .error .panic ↔
      (∃ second, IsNumber (secondText times) 0 second) ∧
        ∃ fraction, fractionText times = some fraction ∧ Text.CutAt 3 fraction := by
  rw [secondText, fractionText]
  cases times[2]? with
  | none => exact iff_of_false (by rintro ⟨⟩) (by rintro ⟨_, _, ⟨⟩, _⟩)
  | some field =>
    simp only [secondAndMillis, map_some, bind_some, IsNumber]
    cases splitOnce '.' field with
    | none =>
      refine iff_of_false ?_ (by rintro ⟨_, _, ⟨⟩, _⟩)
      rw [bind_eq_error, not_or]
      exact ⟨number_ne_panic _ _, by rintro ⟨_, _, ⟨⟩⟩⟩
    | some parts =>
      simp only [map_some, getD_some]
      rw [bind_eq_error, or_iff_right (number_ne_panic _ _)]
      constructor
      · rintro ⟨n, hn, h⟩
        obtain ⟨text, htext, hnumber⟩ := number_eq_ok.1 hn
        cases htext
        rcases bind_eq_error.1 h with h | ⟨_, _, h⟩
        · exact ⟨⟨n, hnumber⟩, _, rfl, readFraction_eq_panic.1 h⟩
        · cases h
      · rintro ⟨⟨n, hnumber⟩, fraction, hfraction, hcut⟩
        cases hfraction
        exact ⟨n, number_eq_ok.2 ⟨_, rfl, hnumber⟩,
          bind_eq_error.2 (.inl (readFraction_eq_panic.2 hcut))⟩

theorem readFields_eq_ok {text : List Char} {fields : BoundFields} :
    readFields text = .ok fields ↔ Denotes text fields := by
  rw [readFields]
  constructor
  · intro h
    obtain ⟨year, hyear, h⟩ := bind_eq_ok.1 h
    obtain ⟨month, hmonth, h⟩ := bind_eq_ok.1 h
    obtain ⟨day, hday, h⟩ := bind_eq_ok.1 h
    obtain ⟨hour, hhour, h⟩ := bind_eq_ok.1 h
    obtain ⟨minute, hminute, h⟩ := bind_eq_ok.1 h
    obtain ⟨⟨second, millis⟩, hsecond, h⟩ := bind_eq_ok.1 h
    cases h
    obtain ⟨hyear, hsmall⟩ := readYear_eq_ok.1 hyear
    obtain ⟨hsecond, hmillis⟩ := secondAndMillis_eq_ok.1 hsecond
    exact ⟨⟨hyear, hsmall, numberOr_eq_ok.1 hmonth, numberOr_eq_ok.1 hday, numberOr_eq_ok.1 hhour,
      numberOr_eq_ok.1 hminute, hsecond⟩, hmillis, rfl⟩
  · rintro ⟨⟨hyear, hsmall, hmonth, hday, hhour, hminute, hsecond⟩, hmillis, hprecision⟩
    refine bind_eq_ok.2 ⟨_, readYear_eq_ok.2 ⟨hyear, hsmall⟩, ?_⟩
    refine bind_eq_ok.2 ⟨_, numberOr_eq_ok.2 hmonth, ?_⟩
    refine bind_eq_ok.2 ⟨_, numberOr_eq_ok.2 hday, ?_⟩
    refine bind_eq_ok.2 ⟨_, numberOr_eq_ok.2 hhour, ?_⟩
    refine bind_eq_ok.2 ⟨_, numberOr_eq_ok.2 hminute, ?_⟩
    refine bind_eq_ok.2 ⟨_, secondAndMillis_eq_ok.2 ⟨hsecond, hmillis⟩, ?_⟩
    dsimp only
    rw [← hprecision]
    rfl

/-- A fraction is cut after all the other numbers have been read. -/
theorem readFields_eq_panic {text : List Char} : readFields text = .error .panic ↔
    ∃ fields fraction, Numbers text fields ∧ fractionText (timeFields text) = some fraction ∧
      Text.CutAt 3 fraction := by
  rw [readFields]
  constructor
  · intro h
    obtain ⟨year, hyear, h⟩ := (bind_eq_error.1 h).resolve_left (readYear_ne_panic _)
    obtain ⟨month, hmonth, h⟩ := (bind_eq_error.1 h).resolve_left (numberOr_ne_panic _ _ _ _)
    obtain ⟨day, hday, h⟩ := (bind_eq_error.1 h).resolve_left (numberOr_ne_panic _ _ _ _)
    obtain ⟨hour, hhour, h⟩ := (bind_eq_error.1 h).resolve_left (numberOr_ne_panic _ _ _ _)
    obtain ⟨minute, hminute, h⟩ := (bind_eq_error.1 h).resolve_left (numberOr_ne_panic _ _ _ _)
    rcases bind_eq_error.1 h with h | ⟨_, _, h⟩
    · obtain ⟨⟨second, hsecond⟩, fraction, hcut⟩ := secondAndMillis_eq_panic.1 h
      obtain ⟨hyear, hsmall⟩ := readYear_eq_ok.1 hyear
      exact ⟨⟨year, month, day, hour, minute, second, 0, .millisecond⟩, fraction,
        ⟨hyear, hsmall, numberOr_eq_ok.1 hmonth, numberOr_eq_ok.1 hday, numberOr_eq_ok.1 hhour,
          numberOr_eq_ok.1 hminute, hsecond⟩, hcut⟩
    · cases h
  · rintro ⟨fields, fraction, ⟨hyear, hsmall, hmonth, hday, hhour, hminute, hsecond⟩, hcut⟩
    refine bind_eq_error.2 (.inr ⟨_, readYear_eq_ok.2 ⟨hyear, hsmall⟩, ?_⟩)
    refine bind_eq_error.2 (.inr ⟨_, numberOr_eq_ok.2 hmonth, ?_⟩)
    refine bind_eq_error.2 (.inr ⟨_, numberOr_eq_ok.2 hday, ?_⟩)
    refine bind_eq_error.2 (.inr ⟨_, numberOr_eq_ok.2 hhour, ?_⟩)
    refine bind_eq_error.2 (.inr ⟨_, numberOr_eq_ok.2 hminute, ?_⟩)
    exact bind_eq_error.2 (.inl (secondAndMillis_eq_panic.2 ⟨⟨_, hsecond⟩, _, hcut⟩))

/-! ### Instants -/

/-- The numbers are those of an instant. -/
structure IsInstant (fields : BoundFields) : Prop where
  year : fields.year ≤ 262142
  day : Gregorian.IsDay fields.year fields.month fields.day
  hour : fields.hour < 24
  minute : fields.minute < 60
  second : fields.second < 60

/-- Where the milliseconds of the calendar end. -/
def limit : ℤ := yearStart 262143 * 86400000

/-- Where the unit of the numbers ends: at the first millisecond behind it. -/
def unitEnd (fields : BoundFields) : ℤ :=
  let day := dayNumber fields.year fields.month fields.day * 86400000
  match fields.precision with
  | .year => yearStart (fields.year + 1) * 86400000
  | .month => (dayNumber fields.year fields.month 1 +
      daysInMonth fields.year fields.month) * 86400000
  | .day => day + 86400000
  | .hour => day + fields.hour * 3600000 + 3600000
  | .minute => day + fields.hour * 3600000 + fields.minute * 60000 + 60000
  | .second | .millisecond =>
    day + fields.hour * 3600000 + fields.minute * 60000 + fields.second * 1000 + 1000

/-- The milliseconds of the numbers. -/
def instantMillis (fields : BoundFields) : ℤ :=
  dayNumber fields.year fields.month fields.day * 86400000 + fields.hour * 3600000 +
    fields.minute * 60000 + fields.second * 1000 + fields.millis

/-- The last hour, minute or second of the calendar. -/
def LastUnit (fields : BoundFields) : Prop :=
  fields.year = 262142 ∧ fields.month = 12 ∧ fields.day = 31 ∧ fields.hour = 23 ∧
    match fields.precision with
    | .hour => True
    | .minute => fields.minute = 59
    | .second | .millisecond => fields.minute = 59 ∧ fields.second = 59
    | _ => False

/-- The bounds that panic: a fraction that is cut within a character when all the other numbers have
been read, and an upper bound in the last unit of the calendar. -/
def BoundPanics (text : List Char) (upper : Bool) : Prop :=
  (∃ fields fraction, Numbers text fields ∧ fractionText (timeFields text) = some fraction ∧
      Text.CutAt 3 fraction) ∨
    upper = true ∧ ∃ fields, Denotes text fields ∧ IsInstant fields ∧ LastUnit fields

/-- A lower bound that is read. -/
def Accepted (text : List Char) : Prop := ∃ fields, Denotes text fields ∧ IsInstant fields

/-- The texts that panic: the lower bound does, or the upper one when the lower one is open or has
been read. -/
def Panics (text : List Char) : Prop :=
  match bracketed (unquoted text) with
  | none => BoundPanics (boundText (unquoted text)) false
  | some inner => ∃ lower upper, splitOnceAt " TO ".toList inner = some (lower, upper) ∧
      (BoundPanics (boundText lower) false ∨
        (trim lower = "*".toList ∨ Accepted (boundText lower)) ∧
          BoundPanics (boundText upper) true)

theorem not_boundPanics_of_star {text : List Char} (h : trim text = "*".toList) (upper : Bool) :
    ¬ BoundPanics (boundText text) upper := by
  have hnumbers (fields : BoundFields) : ¬ Numbers (boundText text) fields := by
    rw [boundText, h]
    exact fun hnumbers => nomatch hnumbers.year
  rintro (⟨fields, _, hfields, -⟩ | ⟨-, fields, hfields, -⟩)
  · exact hnumbers fields hfields
  · exact hnumbers fields hfields.toNumbers

/-- The precisions of a time. -/
def isTimePrecision : Precision → Bool
  | .year | .month | .day => false
  | _ => true

/-- Behind the last unit of the calendar there is no other one. -/
theorem lastUnit_iff {fields : BoundFields} (h : IsInstant fields) :
    limit ≤ unitEnd fields ∧ isTimePrecision fields.precision = true ↔ LastUnit fields := by
  obtain ⟨year, month, day, hour, minute, second, millis, precision⟩ := fields
  obtain ⟨hyear, hday, hhour, hminute, hsecond⟩ := h
  dsimp only at hyear hday hhour hminute hsecond
  have hlast : Gregorian.IsDay 262142 12 31 := by decide
  have hlastDay : dayNumber 262142 12 31 + 1 = yearStart 262143 := by
    have hnext := yearStart_succ_eq 262142
    have hdays : dayNumber 262142 12 31 = dayNumber 262142 12 1 + 30 := by
      simp only [dayNumber]
      omega
    norm_num at hnext
    omega
  have hbounds := hday.yearStart_bounds
  have hmono := yearStart_mono (show (year : ℤ) + 1 ≤ 262143 by
    have hsmall : (year : ℤ) ≤ 262142 := by exact_mod_cast hyear
    omega)
  have hiff : dayNumber year month day + 1 = yearStart 262143 ↔
      year = 262142 ∧ month = 12 ∧ day = 31 := by
    constructor
    · intro heq
      obtain ⟨hyear, hmonth, hday⟩ := dayNumber_inj hday hlast (by omega)
      exact ⟨by exact_mod_cast hyear, hmonth, hday⟩
    · rintro ⟨rfl, rfl, rfl⟩
      exact hlastDay
  have hgroup (rest : Prop) : year = 262142 ∧ month = 12 ∧ day = 31 ∧ rest ↔
      dayNumber year month day + 1 = yearStart 262143 ∧ rest := by
    rw [hiff, and_assoc, and_assoc]
  simp only [limit, LastUnit]
  rw [hgroup]
  cases precision <;> simp only [unitEnd, isTimePrecision, Bool.false_eq_true, and_false, and_true]
  all_goals omega

section Instants

variable [ChronoUtc]

/-- The instant of a date and the seconds of a time. -/
theorem withYmdAndHms_eq_some {year : ℤ} {month day hour minute second : ℕ} {value : NaiveDateTime}
    (h : withYmdAndHms year month day hour minute second = some value) : value.IsWhole ∧
      value.millis = dayNumber year month day * 86400000 + hour * 3600000 +
        minute * 60000 + second * 1000 := by
  rw [withYmdAndHms] at h
  split_ifs at h
  cases h
  refine ⟨⟨by norm_num, by norm_num⟩, ?_⟩
  simp only [NaiveDateTime.millis, NaiveDateTime.millisOfDay]
  omega

variable [LawfulChronoUtc]

theorem exists_withYmdAndHms {year : ℤ} {month day hour minute second : ℕ} :
    (∃ value, withYmdAndHms year month day hour minute second = some value) ↔
      Chrono.isDate year month day = true ∧ hour < 24 ∧ minute < 60 ∧ second < 60 := by
  have htime : Chrono.isTime hour minute second 0 = true ↔
      hour < 24 ∧ minute < 60 ∧ second < 60 := by
    rw [LawfulChrono.isTime_iff]
    omega
  rw [withYmdAndHms, ← htime]
  split_ifs with hdate htime
  · exact iff_of_true ⟨_, rfl⟩ ⟨hdate, htime⟩
  · exact iff_of_false (by rintro ⟨_, ⟨⟩⟩) fun h => htime h.2
  · exact iff_of_false (by rintro ⟨_, ⟨⟩⟩) fun h => hdate h.1

/-- A day from the year 0 on is one of the type before the end of the calendar. -/
theorem isDate_iff_lt {year : ℤ} {month day : ℕ} (h : Gregorian.IsDay year month day)
    (hpos : 0 ≤ year) : Chrono.isDate year month day = true ↔
      dayNumber year month day * 86400000 < limit := by
  have hbounds := h.yearStart_bounds
  have hmono := yearStart_mono (show -262143 ≤ year by omega)
  rw [Chrono.isDate_iff_dayNumber h, limit]
  omega

/-- The midnight that a day starts at, as milliseconds. -/
theorem midnight_map_millis {year : ℤ} {month day : ℕ} (h : Gregorian.IsDay year month day)
    (hpos : 0 ≤ year) : (withYmdAndHms year month day 0 0 0).map NaiveDateTime.millis =
      if dayNumber year month day * 86400000 < limit then
        some (dayNumber year month day * 86400000)
      else none := by
  split_ifs with hlt
  · obtain ⟨value, hvalue⟩ := exists_withYmdAndHms.2 ⟨(isDate_iff_lt h hpos).2 hlt,
      Nat.succ_pos 23, Nat.succ_pos 59, Nat.succ_pos 59⟩
    rw [hvalue, map_some, (withYmdAndHms_eq_some hvalue).2]
    norm_num
  · rw [map_eq_none_iff, eq_none_iff_forall_ne_some]
    intro value hvalue
    exact hlt ((isDate_iff_lt h hpos).1 (exists_withYmdAndHms.1 ⟨value, hvalue⟩).1)

/-- An instant that is moved forward, as milliseconds. -/
theorem checkedAdd_map_millis {value : NaiveDateTime} (h : value.IsWhole) {millis : ℤ}
    (hpos : 0 ≤ millis) : (ChronoUtc.checkedAdd value millis).map NaiveDateTime.millis =
      if value.millis + millis < limit then some (value.millis + millis) else none := by
  have hbounds := h.millis_bounds
  rw [ChronoUtc.checkedAdd_eq h]
  split_ifs with hlt
  · obtain ⟨next, hnext⟩ := isSome_iff_exists.1
      (NaiveDateTime.ofMillis_isSome.2 ⟨by omega, hlt⟩)
    rw [hnext, map_some, (NaiveDateTime.ofMillis_eq_some.1 hnext).2]
  · rw [map_eq_none_iff, ← not_isSome_iff_eq_none, NaiveDateTime.ofMillis_isSome]
    exact fun h => hlt h.2

/-- The end of a unit that a midnight is. -/
theorem valid_bind {value : Option NaiveDateTime} {message : String} {next : ℤ}
    (h : value.map NaiveDateTime.millis = if next < limit then some next else none) :
    (valid value message >>= fun next => pure (ChronoUtc.timestampMillis next - 1)) =
      if next < limit then .ok (next - 1) else .error (conversionError message) := by
  split_ifs at h with hlt
  · obtain ⟨found, rfl, rfl⟩ := map_eq_some_iff.1 h
    rw [if_pos hlt, ← LawfulChronoUtc.timestampMillis_eq]
    rfl
  · rw [if_neg hlt, map_eq_none_iff.1 h]
    rfl

/-- The end of a unit that an instant is moved to. -/
theorem add_bind {year : ℤ} {month day hour minute second : ℕ} {message : String} {millis next : ℤ}
    (hdate : Chrono.isDate year month day = true) (hhour : hour < 24) (hminute : minute < 60)
    (hsecond : second < 60) (hpos : 0 ≤ millis)
    (hnext : dayNumber year month day * 86400000 + hour * 3600000 + minute * 60000 +
      second * 1000 + millis = next) :
    (do
      let start ← valid (withYmdAndHms year month day hour minute second) message
      let next ← add start millis
      pure (ChronoUtc.timestampMillis next - 1)) =
      if next < limit then .ok (next - 1) else .error .panic := by
  obtain ⟨start, hstart⟩ := exists_withYmdAndHms.2 ⟨hdate, hhour, hminute, hsecond⟩
  obtain ⟨hwhole, hmillis⟩ := withYmdAndHms_eq_some hstart
  have hmoved := checkedAdd_map_millis hwhole hpos
  rw [hmillis, hnext] at hmoved
  rw [hstart, valid, ok_bind, add]
  split_ifs at hmoved with hlt
  · obtain ⟨found, hfound, hmillis'⟩ := map_eq_some_iff.1 hmoved
    rw [hfound, if_pos hlt, ← hmillis', ← LawfulChronoUtc.timestampMillis_eq]
    rfl
  · rw [map_eq_none_iff.1 hmoved, if_neg hlt]
    rfl

/-- The end of a day. -/
theorem day_bind {year : ℤ} {month day : ℕ} {message : String}
    (hdate : Chrono.isDate year month day = true) (hpos : 0 ≤ year) :
    (do
      let date ← valid ((fromYmd year month day).bind ChronoUtc.succOpt) message
      let next ← valid (withYmdAndHms date.year date.month date.day 0 0 0) message
      pure (ChronoUtc.timestampMillis next - 1)) =
      if dayNumber year month day * 86400000 + 86400000 < limit then
        .ok (dayNumber year month day * 86400000 + 86400000 - 1)
      else .error (conversionError message) := by
  have hday := (LawfulChrono.isDate_iff.1 hdate).2
  have hbounds := hday.yearStart_bounds
  have hfirst := yearStart_mono (show -262143 ≤ year by omega)
  have hsucc : (fromYmd year month day).bind ChronoUtc.succOpt =
      NaiveDate.ofDayNumber (dayNumber year month day + 1) := by
    rw [fromYmd, dif_pos hdate, bind_some, ChronoUtc.succOpt_eq]
  rw [hsucc]
  cases hnext : NaiveDate.ofDayNumber (dayNumber year month day + 1) with
  | none =>
    have hrange := mt NaiveDate.ofDayNumber_isSome.2 (not_isSome_iff_eq_none.2 hnext)
    rw [if_neg (by rw [limit]; omega)]
    rfl
  | some next =>
    have hnumber := NaiveDate.ofDayNumber_eq_some.1 hnext
    have hnextDay := (LawfulChrono.isDate_iff.1 next.isDate).2
    have hnextBounds := hnextDay.yearStart_bounds
    have hnextPos : 0 ≤ next.year := by
      by_contra hneg
      have hmono := yearStart_mono (show next.year + 1 ≤ year by omega)
      omega
    have hend : dayNumber next.year next.month next.day * 86400000 =
        dayNumber year month day * 86400000 + 86400000 := by omega
    have hmillis := midnight_map_millis hnextDay hnextPos
    rw [hend] at hmillis
    exact valid_bind hmillis

/-- The last millisecond of a unit, if the calendar goes on behind it. -/
theorem endOfUnit_eq {fields : BoundFields} (h : IsInstant fields) : endOfUnit fields =
    if unitEnd fields < limit then .ok (unitEnd fields - 1)
    else .error (if isTimePrecision fields.precision then .panic
      else conversionError "date range does not denote a valid instant") := by
  obtain ⟨year, month, day, hour, minute, second, millis, precision⟩ := fields
  obtain ⟨hyear, hday, hhour, hminute, hsecond⟩ := h
  have hdate : Chrono.isDate year month day = true :=
    LawfulChrono.isDate_iff.2 ⟨⟨by omega, by exact_mod_cast hyear⟩, hday⟩
  have hfirst (year : ℤ) {month : ℕ} (hone : 1 ≤ month) (htwelve : month ≤ 12) :
      Gregorian.IsDay year month 1 :=
    ⟨hone, htwelve, le_rfl, le_trans (by norm_num) (daysInMonth_pos year month)⟩
  cases precision with
  | year =>
    have hmillis := midnight_map_millis (hfirst (year + 1) le_rfl (by norm_num)) (by omega)
    rw [dayNumber_first] at hmillis
    exact valid_bind hmillis
  | month =>
    have hmonth : month ≤ 12 := hday.2.1
    by_cases hlast : month = 12
    · subst hlast
      have hmillis := midnight_map_millis (hfirst (year + 1) le_rfl (by norm_num)) (by omega)
      rw [dayNumber_first, yearStart_succ_eq] at hmillis
      exact valid_bind hmillis
    · have hmillis := midnight_map_millis
        (hfirst year (Nat.succ_pos month) (by omega)) (by omega)
      rw [dayNumber_succ_month _ hday.1] at hmillis
      simp only [endOfUnit, if_neg hlast]
      exact valid_bind hmillis
  | day => exact day_bind hdate (by omega)
  | hour =>
    exact add_bind hdate hhour (by norm_num) (by norm_num) (by norm_num) (by simp [unitEnd])
  | minute =>
    exact add_bind hdate hhour hminute (by norm_num) (by norm_num) (by simp [unitEnd])
  | second => exact add_bind hdate hhour hminute hsecond (by norm_num) rfl
  | millisecond => exact add_bind hdate hhour hminute hsecond (by norm_num) rfl

theorem exists_start {fields : BoundFields} :
    (∃ value, withYmdAndHms fields.year fields.month fields.day fields.hour fields.minute
      fields.second = some value) ↔ IsInstant fields := by
  rw [exists_withYmdAndHms, LawfulChrono.isDate_iff]
  constructor
  · rintro ⟨⟨⟨-, hyear⟩, hday⟩, hhour, hminute, hsecond⟩
    exact ⟨by exact_mod_cast hyear, hday, hhour, hminute, hsecond⟩
  · rintro ⟨hyear, hday, hhour, hminute, hsecond⟩
    exact ⟨⟨⟨by omega, by exact_mod_cast hyear⟩, hday⟩, hhour, hminute, hsecond⟩

omit [ChronoUtc] [LawfulChronoUtc] in
theorem valid_ne_panic {α : Type} (value : Option α) (message : String) :
    valid value message ≠ .error .panic := by
  cases value <;> exact nofun

/-- The start of an instant, once its numbers are read. -/
theorem exists_valid_start {fields : BoundFields} {message : String} {start : NaiveDateTime}
    (h : valid (withYmdAndHms fields.year fields.month fields.day fields.hour fields.minute
      fields.second) message = .ok start) :
    IsInstant fields ∧ ChronoUtc.timestampMillis start + fields.millis = instantMillis fields := by
  have hstart : withYmdAndHms fields.year fields.month fields.day fields.hour fields.minute
      fields.second = some start := by
    cases hvalue : withYmdAndHms fields.year fields.month fields.day fields.hour fields.minute
      fields.second with
    | none => rw [hvalue] at h; cases h
    | some value => rw [hvalue] at h; cases h; rfl
  refine ⟨exists_start.1 ⟨start, hstart⟩, ?_⟩
  rw [LawfulChronoUtc.timestampMillis_eq, (withYmdAndHms_eq_some hstart).2, instantMillis]

/-- The bounds that are read. -/
theorem parseBound_eq_ok {text : List Char} {upper : Bool} {bound : DateRangeBound} :
    parseBound text upper = .ok bound ↔ ∃ fields, Denotes (boundText text) fields ∧
      IsInstant fields ∧ (upper = true → unitEnd fields < limit) ∧
        bound = ⟨if upper then unitEnd fields - 1 else instantMillis fields, fields.precision⟩ := by
  rw [parseBound]
  constructor
  · intro h
    obtain ⟨fields, hfields, h⟩ := bind_eq_ok.1 h
    obtain ⟨start, hstart, h⟩ := bind_eq_ok.1 h
    obtain ⟨hinstant, hmillis⟩ := exists_valid_start hstart
    refine ⟨fields, readFields_eq_ok.1 hfields, hinstant, ?_⟩
    obtain ⟨millis, hend, h⟩ := bind_eq_ok.1 h
    cases h
    cases upper with
    | false =>
      cases hend
      exact ⟨by rintro ⟨⟩, by rw [hmillis]; rfl⟩
    | true =>
      rw [if_pos rfl, endOfUnit_eq hinstant] at hend
      split_ifs at hend with hlt
      cases hend
      exact ⟨fun _ => hlt, rfl⟩
  · rintro ⟨fields, hfields, hinstant, hlt, rfl⟩
    obtain ⟨start, hstart⟩ := exists_start.2 hinstant
    refine bind_eq_ok.2 ⟨fields, readFields_eq_ok.2 hfields, ?_⟩
    refine bind_eq_ok.2 ⟨start, by rw [hstart]; rfl, ?_⟩
    cases upper with
    | false =>
      have hvalid : valid (withYmdAndHms fields.year fields.month fields.day fields.hour
          fields.minute fields.second) "" = .ok start := by
        rw [hstart]
        rfl
      refine bind_eq_ok.2 ⟨_, rfl, ?_⟩
      rw [(exists_valid_start hvalid).2]
      rfl
    | true =>
      exact bind_eq_ok.2 ⟨unitEnd fields - 1,
        (endOfUnit_eq hinstant).trans (if_pos (hlt rfl)), rfl⟩

/-- The bounds that panic. -/
theorem parseBound_eq_panic {text : List Char} {upper : Bool} :
    parseBound text upper = .error .panic ↔ BoundPanics (boundText text) upper := by
  rw [parseBound, bind_eq_error, BoundPanics]
  refine or_congr readFields_eq_panic ?_
  constructor
  · rintro ⟨fields, hfields, h⟩
    obtain ⟨start, hstart, h⟩ := (bind_eq_error.1 h).resolve_left (valid_ne_panic _ _)
    obtain ⟨hinstant, -⟩ := exists_valid_start hstart
    have hend := (bind_eq_error.1 h).resolve_right fun ⟨_, _, h⟩ => nomatch h
    cases upper with
    | false => cases hend
    | true =>
      rw [if_pos rfl, endOfUnit_eq hinstant] at hend
      split_ifs at hend with hlt htime
      · exact ⟨rfl, fields, readFields_eq_ok.1 hfields, hinstant,
          (lastUnit_iff hinstant).1 ⟨not_lt.1 hlt, htime⟩⟩
      · cases hend
  · rintro ⟨rfl, fields, hfields, hinstant, hlast⟩
    obtain ⟨hlimit, htime⟩ := (lastUnit_iff hinstant).2 hlast
    obtain ⟨start, hstart⟩ := exists_start.2 hinstant
    refine ⟨fields, readFields_eq_ok.2 hfields, bind_eq_error.2 (.inr ⟨start, ?_, ?_⟩)⟩
    · rw [hstart]
      rfl
    · refine bind_eq_error.2 (.inl ?_)
      rw [if_pos rfl, endOfUnit_eq hinstant, if_neg (not_lt.2 hlimit), if_pos htime]

theorem exists_parseBound {text : List Char} :
    (∃ bound, parseBound text false = .ok bound) ↔ Accepted (boundText text) := by
  simp only [parseBound_eq_ok, Accepted]
  constructor
  · rintro ⟨_, fields, hfields, hinstant, -⟩
    exact ⟨fields, hfields, hinstant⟩
  · rintro ⟨fields, hfields, hinstant⟩
    exact ⟨_, fields, hfields, hinstant, by rintro ⟨⟩, rfl⟩

/-- A range panics where one of its bounds does, the upper one after the lower one has been read. -/
theorem parse_eq_panic (text : List Char) : parse text = .error .panic ↔ Panics text := by
  rw [parse, Panics]
  split_ifs with hstar
  · rw [hstar]
    exact iff_of_false nofun (not_boundPanics_of_star rfl false)
  cases bracketed (unquoted text) with
  | none =>
    simp only
    rw [bind_eq_error, parseBound_eq_panic]
    exact or_iff_left fun ⟨_, _, h⟩ => nomatch h
  | some inner =>
    simp only
    cases splitOnceAt " TO ".toList inner with
    | none => exact iff_of_false nofun fun ⟨_, _, h, _⟩ => nomatch h
    | some pieces =>
      obtain ⟨lower, upper⟩ := pieces
      have hpieces (P : List Char → List Char → Prop) :
          (∃ lower' upper', some (lower, upper) = some (lower', upper') ∧ P lower' upper') ↔
            P lower upper :=
        ⟨fun ⟨_, _, h, hP⟩ => by cases h; exact hP, fun hP => ⟨_, _, rfl, hP⟩⟩
      rw [hpieces]
      have htrim (piece : List Char) (upper : Bool) :
          parseBound (trim piece) upper = parseBound piece upper := by
        rw [parseBound, boundText, trim_trim, parseBound, boundText]
      have hstar {piece : List Char} (h : trim piece = "*".toList) (upper : Bool) :
          BoundPanics (boundText piece) upper ↔ False :=
        iff_of_false (not_boundPanics_of_star h upper) id
      simp only [htrim]
      split_ifs with hlower hupper hupper
      · rw [hstar hlower, hstar hupper, and_false, or_false]
      · rw [bind_eq_error, parseBound_eq_panic, hstar hlower, false_or, and_iff_right (.inl hlower)]
        exact or_iff_left fun ⟨_, _, h⟩ => nomatch h
      · rw [bind_eq_error, parseBound_eq_panic, hstar hupper, and_false]
        exact or_congr_right (iff_of_false (fun ⟨_, _, h⟩ => nomatch h) id)
      · rw [bind_eq_error, parseBound_eq_panic, or_iff_right hlower, ← exists_parseBound]
        refine or_congr_right ⟨?_, ?_⟩
        · rintro ⟨bound, hbound, h⟩
          rcases bind_eq_error.1 h with h | ⟨_, _, h⟩
          · exact ⟨⟨bound, hbound⟩, parseBound_eq_panic.1 h⟩
          · cases h
        · rintro ⟨⟨bound, hbound⟩, h⟩
          exact ⟨bound, hbound, bind_eq_error.2 (.inl (parseBound_eq_panic.2 h))⟩

/-- A text gives a range or an error unless it panics. -/
theorem parse_total_iff (text : List Char) :
    ((∃ range, parse text = .ok range) ∨ ∃ e, parse text = .error (.error e)) ↔ ¬ Panics text := by
  rw [← parse_eq_panic]
  cases parse text with
  | ok range => simp
  | error failure => cases failure <;> simp

end Instants

section Sample

local instance : ChronoUtc := ChronoUtc.gregorian

theorem parse_total_afternoon :
    (∃ range, parse "2001-01-01T13:15:30.123Z".toList = .ok range) ∨
      ∃ e, parse "2001-01-01T13:15:30.123Z".toList = .error (.error e) := by
  refine (parse_total_iff _).2 ?_
  rintro (⟨fields, fraction, -, hfraction, hcut⟩ | ⟨h, -⟩)
  · have hdigits : fractionText (timeFields (boundText (unquoted
        "2001-01-01T13:15:30.123Z".toList))) = some "123".toList := by decide
    obtain rfl := Option.some.inj (hdigits.symm.trans hfraction)
    have hwhole : truncate 3 "123".toList = some "123".toList := by decide
    cases hwhole.symm.trans (truncate_eq_none.2 hcut)
  · cases h

/-- The third byte of the fraction is within a character. -/
theorem parse_panics : parse "2001-01-01T13:15:30.12é".toList = .error .panic := by
  rfl

end Sample

end DateRange

end Cdm
