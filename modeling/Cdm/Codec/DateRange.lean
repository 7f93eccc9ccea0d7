import Cdm.Codec.DateFormat
import Cdm.Lib.Words

/-!
# Date ranges

The date ranges of DSE: bounds with the precision they were written with, the text of a range, and
how it is read.  An upper bound is read as the end of the unit that is written.

The instants of UTC are a parameter.  A text that is cut within a character, and an instant that is
moved behind the last one, panic, which is an outcome of its own here.
-/

namespace Cdm

open Text

/-- The precision of one bound of a date range. -/
inductive Precision
  | year
  | month
  | day
  | hour
  | minute
  | second
  | millisecond
  deriving DecidableEq, Repr

/-- One bound of a date range: an instant and the precision it was written with. -/
structure DateRangeBound where
  /-- Milliseconds since the epoch. -/
  millis : ℤ
  precision : Precision
  deriving DecidableEq, Repr

/-- A date range. -/
inductive DateRange
  | single (bound : DateRangeBound)
  | closed (lower upper : DateRangeBound)
  | openUpper (lower : DateRangeBound)
  | openLower (upper : DateRangeBound)
  | bothOpen
  | singleOpen
  deriving DecidableEq, Repr

namespace DateRange

open DateFormat (paddedYear)
open Decimal (padded)

/-- How reading ends without a value. -/
inductive Failure
  | error (e : CdmError)
  | panic

def conversionError (message : String) : Failure := .error (Wire.conversionError message)

/-! ### Writing -/

section Writing

variable [ChronoUtc]

def formatDate (value : NaiveDateTime) : List Char :=
  paddedYear 4 value.year ++ '-' :: padded 2 value.month ++ '-' :: padded 2 value.day

def formatInstant (precision : Precision) (value : NaiveDateTime) : List Char :=
  match precision with
  | .year => paddedYear 4 value.year
  | .month => paddedYear 4 value.year ++ '-' :: padded 2 value.month
  | .day => paddedYear 4 value.year ++ '-' :: padded 2 value.month ++ '-' :: padded 2 value.day
  | .hour => formatDate value ++ 'T' :: padded 2 value.hour ++ ['Z']
  | .minute =>
    formatDate value ++ 'T' :: padded 2 value.hour ++ ':' :: padded 2 value.minute ++ ['Z']
  | .second => formatDate value ++ 'T' :: padded 2 value.hour ++ ':' :: padded 2 value.minute ++
      ':' :: padded 2 value.second ++ ['Z']
  | .millisecond => formatDate value ++ 'T' :: padded 2 value.hour ++ ':' :: padded 2 value.minute ++
      ':' :: padded 2 value.second ++ '.' :: padded 3 (value.nanosecond / 10 ^ 6) ++ ['Z']

def formatBound (bound : DateRangeBound) : List Char :=
  match ChronoUtc.fromTimestampMillis bound.millis with
  | none => Decimal.signed bound.millis
  | some value => formatInstant bound.precision value

/-- Renders the textual form. -/
def toText : DateRange → List Char
  | single bound => formatBound bound
  | closed lower upper =>
    '[' :: formatBound lower ++ " TO ".toList ++ formatBound upper ++ [']']
  | openUpper lower => '[' :: formatBound lower ++ " TO *]".toList
  | openLower upper => "[* TO ".toList ++ formatBound upper ++ [']']
  | bothOpen => "[* TO *]".toList
  | singleOpen => "*".toList

end Writing

/-! ### Reading a bound -/

def number (value : Option (List Char)) (what : String) : Except Failure ℕ :=
  match value with
  | none => .error (conversionError s!"date range is missing its {what}")
  | some text =>
    match parseU32 text with
    | none => .error (conversionError s!"date range has a non-numeric {what}")
    | some n => .ok n

/-- The part before the first `T`, and the part behind it. -/
def dateAndTime (text : List Char) : List Char × Option (List Char) :=
  match splitOnce 'T' text with
  | some (date, time) => (date, some time)
  | none => (text, none)

def dateFields (text : List Char) : List (List Char) := splitOn '-' (dateAndTime text).1

def timeFields (text : List Char) : List (List Char) :=
  match (dateAndTime text).2 with
  | some time => splitOn ':' time
  | none => []

/-- The first three digits behind the point, filled up with zeros. -/
def readFraction (fraction : List Char) : Except Failure ℕ :=
  match truncate 3 fraction with
  | none => .error .panic
  | some first =>
    match parseU32 (first ++ List.replicate (3 - utf8Len first) '0') with
    | none => .error (conversionError "date range has a non-numeric fraction")
    | some millis => .ok millis

def secondAndMillis (field : Option (List Char)) : Except Failure (ℕ × ℕ) :=
  match field with
  | none => .ok (0, 0)
  | some field =>
    match splitOnce '.' field with
    | none => do
      let second ← number (some field) "second"
      return (second, 0)
    | some (second, fraction) => do
      let second ← number (some second) "second"
      let millis ← readFraction fraction
      return (second, millis)

/-- The precision is inferred from the shape of the text. -/
def precisionOf (dates times : List (List Char)) : Precision :=
  match dates.length, times.length with
  | 1, _ => .year
  | 2, _ => .month
  | _, 0 => .day
  | _, 1 => .hour
  | _, 2 => .minute
  | _, _ => if times[2]?.any fun field => field.contains '.' then .millisecond else .second

/-- The numbers of a bound. -/
@[ext]
structure BoundFields where
  year : ℕ
  month : ℕ
  day : ℕ
  hour : ℕ
  minute : ℕ
  second : ℕ
  millis : ℕ
  precision : Precision
  deriving DecidableEq, Repr

/-- The number of a piece, with a default where there are fewer of them. -/
def numberOr (pieces : List (List Char)) (index default : ℕ) (what : String) :
    Except Failure ℕ :=
  if pieces.length ≤ index then .ok default else number pieces[index]? what

/-- A year is read without a sign and kept in 32 bits with one. -/
def readYear (dates : List (List Char)) : Except Failure ℕ := do
  let year ← number dates[0]? "year"
  if year < 2 ^ 31 then .ok year else .error (conversionError "date-range year out of range")

def readFields (text : List Char) : Except Failure BoundFields := do
  let dates := dateFields text
  let year ← readYear dates
  let month ← numberOr dates 1 1 "month"
  let day ← numberOr dates 2 1 "day"
  let times := timeFields text
  let hour ← numberOr times 0 0 "hour"
  let minute ← numberOr times 1 0 "minute"
  let (second, millis) ← secondAndMillis times[2]?
  return ⟨year, month, day, hour, minute, second, millis, precisionOf dates times⟩

section Reading

variable [ChronoUtc]

/-- `Utc.with_ymd_and_hms(..).single()`. -/
def withYmdAndHms (year : ℤ) (month day hour minute second : ℕ) : Option NaiveDateTime :=
  if hdate : Chrono.isDate year month day = true then
    if htime : Chrono.isTime hour minute second 0 = true then
      some ⟨year, month, day, hour, minute, second, 0, hdate, htime⟩
    else none
  else none

def fromYmd (year : ℤ) (month day : ℕ) : Option NaiveDate :=
  if hdate : Chrono.isDate year month day = true then some ⟨year, month, day, hdate⟩ else none

def valid {α : Type} (value : Option α) (message : String) : Except Failure α :=
  match value with
  | some value => .ok value
  | none => .error (conversionError message)

/-- The operator `+` of instants. -/
def add (value : NaiveDateTime) (millis : ℤ) : Except Failure NaiveDateTime :=
  match ChronoUtc.checkedAdd value millis with
  | some value => .ok value
  | none => .error .panic

/-- The last millisecond of the unit that contains the fields.  The year after theirs is one of the
32 bits of its type, because theirs has been a year of the calendar before. -/
def endOfUnit (fields : BoundFields) : Except Failure ℤ := do
  let invalid := "date range does not denote a valid instant"
  let ⟨year, month, day, hour, minute, second, _, precision⟩ := fields
  let next ← match precision with
    | .year => valid (withYmdAndHms (year + 1) 1 1 0 0 0) invalid
    | .month =>
      let (nextYear, nextMonth) := if month = 12 then (year + 1, 1) else (year, month + 1)
      valid (withYmdAndHms nextYear nextMonth 1 0 0 0) invalid
    | .day => do
      let date ← valid ((fromYmd year month day).bind ChronoUtc.succOpt) invalid
      valid (withYmdAndHms date.year date.month date.day 0 0 0) invalid
    | .hour => do
      let start ← valid (withYmdAndHms year month day hour 0 0) invalid
      add start 3600000
    | .minute => do
      let start ← valid (withYmdAndHms year month day hour minute 0) invalid
      add start 60000
    | .second | .millisecond => do
      let start ← valid (withYmdAndHms year month day hour minute second) invalid
      add start 1000
  return ChronoUtc.timestampMillis next - 1

/-- The text without white space around it and the letters behind it. -/
def boundText (text : List Char) : List Char := trimEndMatches 'Z' (trim text)

/-- Parses one bound.  An upper bound is rounded up to the end of its unit. -/
def parseBound (text : List Char) (upper : Bool) : Except Failure DateRangeBound := do
  let text := boundText text
  let fields ← readFields text
  let start ← valid (withYmdAndHms fields.year fields.month fields.day fields.hour fields.minute
    fields.second) s!"`{String.ofList text}` is not a valid instant"
  let millis ← (if upper then endOfUnit fields
    else .ok (ChronoUtc.timestampMillis start + fields.millis))
  return ⟨millis, fields.precision⟩

/-! ### Reading a range -/

/-- What stands between brackets. -/
def bracketed (text : List Char) : Option (List Char) :=
  match text with
  | '[' :: rest => if endsWith ']' rest then some rest.dropLast else none
  | _ => none

/-- The text without white space and quotes around it. -/
def unquoted (text : List Char) : List Char :=
  trim (trimMatches singleQuote (trim text))

/-- Parses the textual form. -/
def parse (text : List Char) : Except Failure DateRange :=
  let trimmed := unquoted text
  if trimmed = "*".toList then .ok singleOpen
  else
    match bracketed trimmed with
    | some inner =>
      match splitOnceAt " TO ".toList inner with
      | none => .error (conversionError s!"`{String.ofList text}` is not a date range")
      | some (lower, upper) =>
        let lower := trim lower
        let upper := trim upper
        if lower = "*".toList then
          if upper = "*".toList then .ok bothOpen
          else do
            let upper ← parseBound upper true
            return openLower upper
        else if upper = "*".toList then do
          let lower ← parseBound lower false
          return openUpper lower
        else do
          let lower ← parseBound lower false
          let upper ← parseBound upper true
          return closed lower upper
    | none => do
      let bound ← parseBound trimmed false
      return single bound

end Reading

end DateRange

end Cdm
