import Cdm.Codec.DateUnits

/-!
# The text of a date range

The text of a bound is taken apart into the numbers that it was put together from, and the text of a
range into its bounds.
-/

namespace Cdm

open Text
open List

namespace DateRange

open Decimal (padded)

/-! ### The pieces of a bound -/

/-- Pieces of a date and of a time, put together. -/
def joined (dates times : List (List Char)) : List Char :=
  ['-'].intercalate dates ++ if times = [] then [] else 'T' :: [':'].intercalate times

/-- What stands behind a time. -/
def closing (times : List (List Char)) : List Char := if times = [] then [] else ['Z']

/-- The characters of a piece. -/
def IsPiece (piece : List Char) : Prop := ∀ c ∈ piece, c.isDigit = true ∨ c = '.'

theorem IsPiece.ne {piece : List Char} (h : IsPiece piece) {c d : Char} (hc : c ∈ piece)
    (hdigit : d.isDigit = false) (hpoint : d ≠ '.') : c ≠ d := by
  rintro rfl
  rcases h c hc with hc | hc
  · rw [hdigit] at hc
    cases hc
  · exact hpoint hc

theorem IsPiece.not_mem {piece : List Char} (h : IsPiece piece) {d : Char}
    (hdigit : d.isDigit = false) (hpoint : d ≠ '.') : d ∉ piece :=
  fun hd => h.ne hd hdigit hpoint rfl

section Joined

variable {dates times : List (List Char)} (hdates : ∀ piece ∈ dates, IsPiece piece)
  (htimes : ∀ piece ∈ times, IsPiece piece)

include hdates htimes

/-- Nothing but the characters of pieces and of what stands between them. -/
theorem not_mem_joined {d : Char} (hdigit : d.isDigit = false) (hpoint : d ≠ '.') (hdash : d ≠ '-')
    (hletter : d ≠ 'T') (hcolon : d ≠ ':') : d ∉ joined dates times := by
  have hdate : d ∉ ['-'].intercalate dates :=
    not_mem_intercalate (by simpa using hdash)
      fun piece hpiece => (hdates piece hpiece).not_mem hdigit hpoint
  have htime : d ∉ [':'].intercalate times :=
    not_mem_intercalate (by simpa using hcolon)
      fun piece hpiece => (htimes piece hpiece).not_mem hdigit hpoint
  rw [joined, mem_append, not_or]
  refine ⟨hdate, ?_⟩
  split_ifs
  · exact not_mem_nil
  · exact not_mem_cons_of_ne_of_not_mem hletter htime

omit htimes in
theorem dateAndTime_joined : dateAndTime (joined dates times) =
    (['-'].intercalate dates, if times = [] then none else some ([':'].intercalate times)) := by
  have hdate : 'T' ∉ ['-'].intercalate dates :=
    not_mem_intercalate (by decide)
      fun piece hpiece => (hdates piece hpiece).not_mem (by decide) (by decide)
  rw [dateAndTime, joined]
  split_ifs with htime
  · rw [append_nil, splitOnce_eq_none.2 hdate]
  · rw [splitOnce_append hdate]

omit htimes in
theorem dateFields_joined (hne : dates ≠ []) : dateFields (joined dates times) = dates := by
  rw [dateFields, dateAndTime_joined hdates]
  exact splitOn_intercalate hne
    fun piece hpiece => (hdates piece hpiece).not_mem (by decide) (by decide)

theorem timeFields_joined : timeFields (joined dates times) = times := by
  rw [timeFields, dateAndTime_joined hdates]
  by_cases htime : times = []
  · rw [if_pos htime, htime]
  · rw [if_neg htime]
    exact splitOn_intercalate htime
      fun piece hpiece => (htimes piece hpiece).not_mem (by decide) (by decide)

theorem isWhitespace_of_mem_joined {c : Char} (hc : c ∈ joined dates times) :
    isWhitespace c = false := by
  by_contra hspace
  have hne {d : Char} (hd : isWhitespace d = false) : c ≠ d := fun heq => hspace (heq ▸ hd)
  have hdigit : c.isDigit = false := by
    by_contra hdigit
    exact hspace (isWhitespace_of_isDigit (eq_true_of_ne_false hdigit))
  exact not_mem_joined hdates htimes hdigit (hne (by decide)) (hne (by decide)) (hne (by decide))
    (hne (by decide)) hc

/-- The letter behind a time is taken away. -/
theorem boundText_joined :
    boundText (joined dates times ++ closing times) = joined dates times := by
  have hletter : 'Z' ∉ joined dates times := not_mem_joined hdates htimes (by decide) (by decide)
    (by decide) (by decide) (by decide)
  have hspace : ∀ c ∈ joined dates times ++ closing times, isWhitespace c = false := by
    intro c hc
    rw [mem_append, closing] at hc
    rcases hc with hc | hc
    · exact isWhitespace_of_mem_joined hdates htimes hc
    · split_ifs at hc
      · cases hc
      · rw [mem_singleton.1 hc]
        decide
  rw [boundText, trim_of_forall hspace, closing]
  split_ifs
  · rw [append_nil, trimEndMatches_of_not_mem hletter]
  · rw [trimEndMatches_append hletter]

end Joined

/-! ### The numbers of a text -/

/-- The pieces of a date. -/
def dateTexts (fields : BoundFields) : List (List Char) :=
  match fields.precision with
  | .year => [padded 4 fields.year]
  | .month => [padded 4 fields.year, padded 2 fields.month]
  | _ => [padded 4 fields.year, padded 2 fields.month, padded 2 fields.day]

/-- The pieces of a time. -/
def timeTexts (fields : BoundFields) : List (List Char) :=
  match fields.precision with
  | .hour => [padded 2 fields.hour]
  | .minute => [padded 2 fields.hour, padded 2 fields.minute]
  | .second => [padded 2 fields.hour, padded 2 fields.minute, padded 2 fields.second]
  | .millisecond => [padded 2 fields.hour, padded 2 fields.minute,
      padded 2 fields.second ++ '.' :: padded 3 fields.millis]
  | _ => []

/-- The text of a bound. -/
def formatFields (fields : BoundFields) : List Char :=
  joined (dateTexts fields) (timeTexts fields) ++ closing (timeTexts fields)

theorem isPiece_padded (width n : ℕ) : IsPiece (padded width n) :=
  fun _ hc => .inl (Decimal.isDigit_of_mem_padded hc)

theorem isPiece_dateTexts (fields : BoundFields) : ∀ piece ∈ dateTexts fields, IsPiece piece := by
  rw [dateTexts]
  cases fields.precision <;> simp [isPiece_padded]

theorem isPiece_timeTexts (fields : BoundFields) : ∀ piece ∈ timeTexts fields, IsPiece piece := by
  have hfraction : IsPiece (padded 2 fields.second ++ '.' :: padded 3 fields.millis) := by
    intro c hc
    rcases mem_append.1 hc with hc | hc
    · exact isPiece_padded _ _ c hc
    · rcases mem_cons.1 hc with rfl | hc
      · exact .inr rfl
      · exact isPiece_padded _ _ c hc
  rw [timeTexts]
  cases fields.precision <;> simp [isPiece_padded, hfraction]

theorem dateFields_formatFields (fields : BoundFields) :
    dateFields (boundText (formatFields fields)) = dateTexts fields := by
  rw [formatFields, boundText_joined (isPiece_dateTexts fields) (isPiece_timeTexts fields)]
  refine dateFields_joined (isPiece_dateTexts fields) ?_
  rw [dateTexts]
  cases fields.precision <;> simp

theorem timeFields_formatFields (fields : BoundFields) :
    timeFields (boundText (formatFields fields)) = timeTexts fields := by
  rw [formatFields, boundText_joined (isPiece_dateTexts fields) (isPiece_timeTexts fields)]
  exact timeFields_joined (isPiece_dateTexts fields) (isPiece_timeTexts fields)

theorem precisionOf_texts (fields : BoundFields) :
    precisionOf (dateTexts fields) (timeTexts fields) = fields.precision := by
  have hpoint : '.' ∉ padded 2 fields.second := fun h =>
    absurd (Decimal.isDigit_of_mem_padded h) (by decide)
  cases hprecision : fields.precision <;> simp [precisionOf, dateTexts, timeTexts, hprecision, hpoint]

theorem isNumber_padded {width n default m : ℕ} :
    IsNumber (some (padded width n)) default m ↔ m = n ∧ n < 2 ^ 32 := by
  rw [IsNumber, Decimal.parseU32_padded]
  split_ifs with h
  · rw [and_iff_left h, Option.some.injEq]
    exact eq_comm
  · exact iff_of_false (by rintro ⟨⟩) fun hn => h hn.2

theorem isFraction_padded {n m : ℕ} (hn : n < 1000) :
    IsFraction (some (padded 3 n)) m ↔ m = n := by
  have hdigits : ∀ c ∈ padded 3 n, c.isDigit = true := fun c hc => Decimal.isDigit_of_mem_padded hc
  have hlength : (padded 3 n).length = 3 := Decimal.length_padded (by decide) hn
  have htruncate : truncate 3 (padded 3 n) = some (padded 3 n) := by
    rw [truncate_of_isDigit hdigits, take_of_length_le hlength.le]
  simp only [IsFraction, htruncate, Option.some.injEq, exists_eq_left']
  rw [utf8Len_of_isDigit hdigits, hlength, Nat.sub_self, replicate_zero, append_nil,
    Decimal.parseU32_padded, if_pos (by omega), Option.some.injEq]
  exact eq_comm

/-- The numbers that a unit is written with are below the bounds of their types. -/
structure Small (fields : BoundFields) : Prop where
  year : fields.year < 2 ^ 31
  month : fields.month < 2 ^ 32
  day : fields.day < 2 ^ 32
  hour : fields.hour < 2 ^ 32
  minute : fields.minute < 2 ^ 32
  second : fields.second < 2 ^ 32

theorem secondText_timeTexts (fields : BoundFields) :
    secondText (timeTexts fields) = if fields.precision = .second ∨ fields.precision = .millisecond
      then some (padded 2 fields.second) else none := by
  have hpoint : '.' ∉ padded 2 fields.second := fun h =>
    absurd (Decimal.isDigit_of_mem_padded h) (by decide)
  have hnone := splitOnce_eq_none.2 hpoint
  cases hprecision : fields.precision <;>
    simp [secondText, timeTexts, hprecision, hnone, splitOnce_append hpoint]

theorem fractionText_timeTexts (fields : BoundFields) : fractionText (timeTexts fields) =
    if fields.precision = .millisecond then some (padded 3 fields.millis) else none := by
  have hpoint : '.' ∉ padded 2 fields.second := fun h =>
    absurd (Decimal.isDigit_of_mem_padded h) (by decide)
  have hnone := splitOnce_eq_none.2 hpoint
  cases hprecision : fields.precision <;>
    simp [fractionText, timeTexts, hprecision, hnone, splitOnce_append hpoint]

/-- A piece stands for its number, and none for the default. -/
theorem isNumber_iff {piece : Option (List Char)} {default n m : ℕ}
    (h : piece = none ∧ n = default ∧ default < 2 ^ 32 ∨ ∃ width, piece = some (padded width n)) :
    IsNumber piece default m ↔ m = n ∧ n < 2 ^ 32 := by
  rcases h with ⟨rfl, rfl, hsmall⟩ | ⟨width, rfl⟩
  · exact (and_iff_left hsmall).symm
  · exact isNumber_padded

/-- A text that was written denotes the numbers it was written with. -/
theorem denotes_formatFields {fields fields' : BoundFields} (hmillis : fields.millis < 1000) :
    Denotes (boundText (formatFields fields)) fields' ↔
      fields' = fields.normal ∧ Small fields.normal := by
  have hzero : 0 < 2 ^ 32 := by norm_num
  have hone : 1 < 2 ^ 32 := by norm_num
  obtain ⟨year, month, day, hour, minute, second, millis, precision⟩ := fields
  set fields : BoundFields := ⟨year, month, day, hour, minute, second, millis, precision⟩ with hfields
  have hyear {n : ℕ} : IsNumber (dateTexts fields)[0]? 0 n ↔
      n = fields.normal.year ∧ fields.normal.year < 2 ^ 32 := by
    refine isNumber_iff (.inr ⟨4, ?_⟩)
    cases precision <;> rfl
  have hmonth {n : ℕ} : IsNumber (dateTexts fields)[1]? 1 n ↔
      n = fields.normal.month ∧ fields.normal.month < 2 ^ 32 := by
    apply isNumber_iff
    cases precision <;> first | exact .inl ⟨rfl, rfl, hone⟩ | exact .inr ⟨2, rfl⟩
  have hday {n : ℕ} : IsNumber (dateTexts fields)[2]? 1 n ↔
      n = fields.normal.day ∧ fields.normal.day < 2 ^ 32 := by
    apply isNumber_iff
    cases precision <;> first | exact .inl ⟨rfl, rfl, hone⟩ | exact .inr ⟨2, rfl⟩
  have hhour {n : ℕ} : IsNumber (timeTexts fields)[0]? 0 n ↔
      n = fields.normal.hour ∧ fields.normal.hour < 2 ^ 32 := by
    apply isNumber_iff
    cases precision <;> first | exact .inl ⟨rfl, rfl, hzero⟩ | exact .inr ⟨2, rfl⟩
  have hminute {n : ℕ} : IsNumber (timeTexts fields)[1]? 0 n ↔
      n = fields.normal.minute ∧ fields.normal.minute < 2 ^ 32 := by
    apply isNumber_iff
    cases precision <;> first | exact .inl ⟨rfl, rfl, hzero⟩ | exact .inr ⟨2, rfl⟩
  have hsecond {n : ℕ} : IsNumber (secondText (timeTexts fields)) 0 n ↔
      n = fields.normal.second ∧ fields.normal.second < 2 ^ 32 := by
    rw [secondText_timeTexts]
    apply isNumber_iff
    cases precision <;> first | exact .inl ⟨rfl, rfl, hzero⟩ | exact .inr ⟨2, rfl⟩
  have hfraction {n : ℕ} : IsFraction (fractionText (timeTexts fields)) n ↔
      n = fields.normal.millis := by
    rw [fractionText_timeTexts]
    cases precision <;> first | exact Iff.rfl | exact isFraction_padded hmillis
  have hprecision : fields.normal.precision = fields.precision := by
    cases precision <;> rfl
  have hdates := dateFields_formatFields fields
  have htimes := timeFields_formatFields fields
  constructor
  · rintro ⟨⟨hyear', hsmall, hmonth', hday', hhour', hminute', hsecond'⟩, hfraction', hprecision'⟩
    rw [hdates] at hyear' hmonth' hday'
    rw [htimes] at hhour' hminute' hsecond' hfraction'
    rw [hdates, htimes, precisionOf_texts] at hprecision'
    obtain ⟨hyear', -⟩ := hyear.1 hyear'
    obtain ⟨hmonth', hmonth''⟩ := hmonth.1 hmonth'
    obtain ⟨hday', hday''⟩ := hday.1 hday'
    obtain ⟨hhour', hhour''⟩ := hhour.1 hhour'
    obtain ⟨hminute', hminute''⟩ := hminute.1 hminute'
    obtain ⟨hsecond', hsecond''⟩ := hsecond.1 hsecond'
    refine ⟨BoundFields.ext hyear' hmonth' hday' hhour' hminute' hsecond' (hfraction.1 hfraction')
      (hprecision'.trans hprecision.symm), ?_, hmonth'', hday'', hhour'', hminute'', hsecond''⟩
    rwa [← hyear']
  · rintro ⟨rfl, hsmall⟩
    refine ⟨⟨?_, hsmall.year, ?_, ?_, ?_, ?_, ?_⟩, ?_, ?_⟩
    · rw [hdates]
      exact hyear.2 ⟨rfl, hsmall.year.trans (by norm_num)⟩
    · rw [hdates]
      exact hmonth.2 ⟨rfl, hsmall.month⟩
    · rw [hdates]
      exact hday.2 ⟨rfl, hsmall.day⟩
    · rw [htimes]
      exact hhour.2 ⟨rfl, hsmall.hour⟩
    · rw [htimes]
      exact hminute.2 ⟨rfl, hsmall.minute⟩
    · rw [htimes]
      exact hsecond.2 ⟨rfl, hsmall.second⟩
    · rw [htimes]
      exact hfraction.2 rfl
    · rw [hdates, htimes, precisionOf_texts, hprecision]

/-! ### The text of an instant -/

/-- The characters of a bound. -/
def IsBoundText (text : List Char) : Prop :=
  ∀ c ∈ text, c.isDigit = true ∨ c ∈ ['-', 'T', ':', '.', 'Z']

theorem isBoundText_append {s t : List Char} : IsBoundText (s ++ t) ↔ IsBoundText s ∧ IsBoundText t :=
  forall_mem_append

theorem isBoundText_cons {c : Char} {s : List Char} :
    IsBoundText (c :: s) ↔ (c.isDigit = true ∨ c ∈ ['-', 'T', ':', '.', 'Z']) ∧ IsBoundText s :=
  forall_mem_cons

theorem isBoundText_padded (width n : ℕ) : IsBoundText (padded width n) :=
  fun _ hc => .inl (Decimal.isDigit_of_mem_padded hc)

theorem isBoundText_paddedYear (width : ℕ) (year : ℤ) : IsBoundText (DateFormat.paddedYear width year) := by
  rw [DateFormat.paddedYear]
  split_ifs
  · exact isBoundText_cons.2 ⟨.inr (by decide), isBoundText_padded _ _⟩
  · exact isBoundText_padded _ _

theorem isBoundText_toDigits (n : ℕ) : IsBoundText (Nat.toDigits 10 n) :=
  fun _ hc => .inl (Nat.isDigit_of_mem_toDigits (by decide) (by decide) hc)

theorem isBoundText_signed (n : ℤ) : IsBoundText (Decimal.signed n) := by
  rw [Decimal.signed]
  split_ifs
  · exact isBoundText_cons.2 ⟨.inr (by decide), isBoundText_toDigits _⟩
  · exact isBoundText_toDigits _

theorem IsBoundText.isWhitespace {text : List Char} (h : IsBoundText text) {c : Char} (hc : c ∈ text) :
    isWhitespace c = false := by
  rcases h c hc with hdigit | hmem
  · exact isWhitespace_of_isDigit hdigit
  · simp only [mem_cons, not_mem_nil, or_false] at hmem
    rcases hmem with rfl | rfl | rfl | rfl | rfl <;> decide

theorem IsBoundText.not_mem {text : List Char} (h : IsBoundText text) {c : Char}
    (hdigit : c.isDigit = false) (hmem : c ∉ ['-', 'T', ':', '.', 'Z']) : c ∉ text := by
  intro hc
  rcases h c hc with hdigit' | hmem'
  · rw [hdigit] at hdigit'
    cases hdigit'
  · exact hmem hmem'

section Instants

variable [ChronoUtc]

theorem isBoundText_formatInstant (precision : Precision) (value : NaiveDateTime) :
    IsBoundText (formatInstant precision value) := by
  have hyear := isBoundText_paddedYear 4 value.year
  have hdash : ('-').isDigit = true ∨ '-' ∈ ['-', 'T', ':', '.', 'Z'] := .inr (by decide)
  have hletter : ('T').isDigit = true ∨ 'T' ∈ ['-', 'T', ':', '.', 'Z'] := .inr (by decide)
  have hcolon : (':').isDigit = true ∨ ':' ∈ ['-', 'T', ':', '.', 'Z'] := .inr (by decide)
  have hpoint : ('.').isDigit = true ∨ '.' ∈ ['-', 'T', ':', '.', 'Z'] := .inr (by decide)
  have hend : IsBoundText ['Z'] := fun c hc => .inr (by rw [mem_singleton.1 hc]; decide)
  cases precision <;>
    simp only [formatInstant, formatDate, isBoundText_append, isBoundText_cons, hdash, hletter,
      hcolon, hpoint, hend, hyear, isBoundText_padded, and_self]

/-- From the year 0 on an instant is written with its numbers. -/
theorem formatInstant_eq (precision : Precision) {value : NaiveDateTime} (h : 0 ≤ value.year) :
    formatInstant precision value = formatFields (unitFields precision value) := by
  have hyear : DateFormat.paddedYear 4 value.year = padded 4 value.year.toNat := if_neg (not_lt.2 h)
  cases precision <;>
    simp [formatInstant, formatDate, hyear, formatFields, joined, closing, dateTexts, timeTexts,
      unitFields, fieldsOf, BoundFields.normal, intercalate_cons_cons]

/-- Before the year 0 it is written with a sign. -/
theorem exists_formatInstant_eq (precision : Precision) {value : NaiveDateTime} (h : value.year < 0) :
    ∃ rest, formatInstant precision value = '-' :: rest := by
  have hyear : DateFormat.paddedYear 4 value.year = '-' :: padded 3 value.year.natAbs := if_pos h
  cases precision <;> simp only [formatInstant, formatDate, hyear, cons_append] <;>
    exact ⟨_, rfl⟩

end Instants

end DateRange

end Cdm
