import Cdm.Codec.Chrono
import Cdm.Codec.Wire
import Cdm.Lib.Decimal

/-!
# Date patterns

The patterns of timestamps: what a pattern is made of, how a date and time is written with it, and
how it is read back.  Which dates and times exist is a parameter.
-/

namespace Cdm

namespace DateFormat

/-- The numeric pattern letters. -/
inductive Letter
  | year
  | month
  | day
  | hour24
  | hour12
  | minute
  | second
  | fraction
  deriving DecidableEq, Repr

/-- One field of a translated pattern. -/
inductive Field
  | literal (text : List Char)
  /-- A run of a numeric letter, as many of them as the width. -/
  | number (letter : Letter) (width : ℕ)
  | amPm
  deriving DecidableEq, Repr

/-! ### Translating a pattern -/

def configError (message : String) : CdmError :=
  CdmError.withConfigKey ⟨.config, message, {}⟩ "transform.codecs.timestamp_format"

def letterField (letter : Char) (width : ℕ) (pattern : List Char) : Except CdmError Field :=
  match letter with
  | 'y' | 'u' => .ok (.number .year width)
  | 'M' =>
    if width ≤ 2 then .ok (.number .month width)
    else .error (configError
      (s!"date format `{String.ofList pattern}` uses the textual month pattern " ++
        s!"`{String.ofList (List.replicate width letter)}`, which cdm-rs does " ++
        "not support; use `MM` (numeric) instead"))
  | 'd' => .ok (.number .day width)
  | 'H' => .ok (.number .hour24 width)
  | 'h' => .ok (.number .hour12 width)
  | 'm' => .ok (.number .minute width)
  | 's' => .ok (.number .second width)
  | 'S' => .ok (.number .fraction width)
  | 'a' => .ok .amPm
  | other => .error (configError
      (s!"date format `{String.ofList pattern}` uses the unsupported pattern letter " ++
        s!"`{String.ofList [other]}`; cdm-rs supports `y M d H h m s S a`"))

/-- The literal that an opening quote begins, and what follows the closing one. -/
def quotedLiteral : List Char → Option (List Char × List Char)
  | [] => none
  | [c] => if c = Text.singleQuote then some ([], []) else none
  | c :: d :: rest =>
    if c = Text.singleQuote then
      if d = Text.singleQuote then (quotedLiteral rest).map fun parts => (c :: parts.1, parts.2)
      else some ([], d :: rest)
    else (quotedLiteral (d :: rest)).map fun parts => (c :: parts.1, parts.2)

/-- Characters that stand for themselves. -/
def isPlain (c : Char) : Bool := !c.isAlpha && c != Text.singleQuote

/-- The fields of a pattern.  Each of them is at least one character, so the length of the pattern
bounds their number. -/
def parseFields (pattern : List Char) : ℕ → List Char → Except CdmError (List Field)
  | 0, _ | _, [] => .ok []
  | fuel + 1, c :: cs =>
    if c = Text.singleQuote then
      match quotedLiteral cs with
      | none => .error (configError
          s!"unterminated quoted literal in date format `{String.ofList pattern}`")
      | some (literal, rest) => do
        let fields ← parseFields pattern fuel rest
        return .literal (if literal = [] then [Text.singleQuote] else literal) :: fields
    else if isPlain c then do
      let fields ← parseFields pattern fuel (cs.dropWhile isPlain)
      return .literal (c :: cs.takeWhile isPlain) :: fields
    else do
      let field ← letterField c ((cs.takeWhile (· = c)).length + 1) pattern
      let fields ← parseFields pattern fuel (cs.dropWhile (· = c))
      return field :: fields

end DateFormat

open DateFormat in
/-- A pattern, translated. -/
structure JavaDateFormat where
  pattern : List Char
  fields : List Field
  deriving DecidableEq, Repr

namespace DateFormat

/-- Translates a pattern. -/
def parse (pattern : List Char) : Except CdmError JavaDateFormat :=
  if pattern = [] then
    .error (configError "transform.codecs.timestamp_format is required and cannot be empty")
  else do
    let fields ← parseFields pattern pattern.length pattern
    return ⟨pattern, fields⟩

/-! ### Writing -/

section Writing

variable [Chrono]

/-- A year, with a sign when it is before the year 0. -/
def paddedYear (width : ℕ) (year : ℤ) : List Char :=
  if year < 0 then '-' :: Decimal.padded (width - 1) year.natAbs
  else Decimal.padded width year.toNat

/-- The first digits of the nanoseconds, and zeros behind the ninth. -/
def formatFraction (width nanos : ℕ) : List Char :=
  (Decimal.padded 9 nanos).take (min width 9) ++ List.replicate (width - 9) '0'

/-- The hour of a twelve-hour clock. -/
def clockHour (hour : ℕ) : ℕ := if hour % 12 = 0 then 12 else hour % 12

def formatNumber (value : NaiveDateTime) (letter : Letter) (width : ℕ) : List Char :=
  match letter with
  | .year =>
    if width = 2 then paddedYear 2 (value.year % 100) else paddedYear width value.year
  | .month => Decimal.padded width value.month
  | .day => Decimal.padded width value.day
  | .hour24 => Decimal.padded width value.hour
  | .hour12 => Decimal.padded width (clockHour value.hour)
  | .minute => Decimal.padded width value.minute
  | .second => Decimal.padded width value.second
  | .fraction => formatFraction width value.nanosecond

def formatField (value : NaiveDateTime) : Field → List Char
  | .literal text => text
  | .number letter width => formatNumber value letter width
  | .amPm => if value.hour < 12 then ['A', 'M'] else ['P', 'M']

/-- Whether a field can be written: a number is padded to a width of 16 bits, and a greater one
panics. -/
def Field.isWritable : Field → Bool
  | .number .fraction _ => true
  | .number _ width => width < 2 ^ 16
  | _ => true

def formatFields (value : NaiveDateTime) (fields : List Field) : List Char :=
  fields.flatMap (formatField value)

/-- Renders a local date and time, or panics. -/
def formatDatetime (format : JavaDateFormat) (value : NaiveDateTime) : Option (List Char) :=
  if format.fields.all Field.isWritable then some (formatFields value format.fields) else none

end Writing

/-! ### Reading -/

/-- What has been read. -/
structure Parts where
  year : Option ℤ := none
  month : Option ℤ := none
  day : Option ℤ := none
  hour : Option ℤ := none
  hour12 : Option ℤ := none
  minute : Option ℤ := none
  second : Option ℤ := none
  nanos : Option ℤ := none
  pm : Option Bool := none
  deriving DecidableEq, Repr

def wantedDigits (width : ℕ) : ℕ := if width ≤ 1 then 2 else width

/-- Reads exactly as many digits as the width, or up to two where it is one. -/
def readDigits (chars : List Char) (width : ℕ) : Option (List Char × List Char) :=
  let digits := (chars.take (wantedDigits width)).takeWhile Char.isDigit
  if digits = [] ∨ 1 < width ∧ digits.length ≠ width then none
  else some (digits, chars.drop digits.length)

/-- Scales a number of `width` digits to nanoseconds. -/
def scaleFraction (value : ℤ) (width : ℕ) : ℤ :=
  (· / 10)^[width - 9] ((fun nanos => min (2 ^ 63 - 1) (nanos * 10))^[9 - width] value)

/-- Records what a run of a letter stands for. -/
def Parts.record (parts : Parts) (letter : Letter) (width : ℕ) (value : ℤ) : Parts :=
  match letter with
  | .year => { parts with year := some (if width = 2 then 2000 + value else value) }
  | .month => { parts with month := some value }
  | .day => { parts with day := some value }
  | .hour24 => { parts with hour := some value }
  | .hour12 => { parts with hour12 := some value }
  | .minute => { parts with minute := some value }
  | .second => { parts with second := some value }
  | .fraction => { parts with nanos := some (scaleFraction value width) }

/-- Reads one field. -/
def readField (field : Field) (chars : List Char) (parts : Parts) : Option (List Char × Parts) :=
  match field with
  | .literal text => (Text.stripPrefix text chars).map fun rest => (rest, parts)
  | .amPm =>
    match chars with
    | c :: d :: rest =>
      if [c.toUpper, d.toUpper] = ['A', 'M'] then some (rest, { parts with pm := some false })
      else if [c.toUpper, d.toUpper] = ['P', 'M'] then some (rest, { parts with pm := some true })
      else none
    | _ => none
  | .number letter width => do
    let (digits, rest) ← readDigits chars width
    let value ← Text.parseI64 digits
    return (rest, parts.record letter width value)

def readFields : List Field → List Char → Parts → Option (List Char × Parts)
  | [], chars, parts => some (chars, parts)
  | field :: fields, chars, parts => do
    let (chars, parts) ← readField field chars parts
    readFields fields chars parts

def toU32 (value : ℤ) : Option ℕ := if 0 ≤ value ∧ value < 2 ^ 32 then some value.toNat else none

def toI32 (value : ℤ) : Option ℤ := if -2 ^ 31 ≤ value ∧ value < 2 ^ 31 then some value else none

/-- The hour of the day, of a clock with twelve hours where there is no other. -/
def Parts.hourOfDay (parts : Parts) : Option ℕ :=
  match parts.hour, parts.hour12 with
  | some hour, _ => toU32 hour
  | none, some clock => do
    let clock ← toU32 clock
    return if parts.pm = some true then clock % 12 + 12 else clock % 12
  | none, none => some 0

section Reading

variable [Chrono]

/-- The date and time, if there is one. -/
def Parts.build (parts : Parts) : Option NaiveDateTime := do
  let year ← toI32 (parts.year.getD 1970)
  let month ← toU32 (parts.month.getD 1)
  let day ← toU32 (parts.day.getD 1)
  let hour ← parts.hourOfDay
  let minute ← toU32 (parts.minute.getD 0)
  let second ← toU32 (parts.second.getD 0)
  let nanos ← toU32 (parts.nanos.getD 0)
  if hdate : Chrono.isDate year month day = true then
    if htime : Chrono.isTime hour minute second nanos = true then
      some ⟨year, month, day, hour, minute, second, nanos, hdate, htime⟩
    else none
  else none

def parseError (format : JavaDateFormat) (text : List Char) : CdmError :=
  ⟨.typeConversion,
    s!"`{String.ofList text}` does not match date format `{String.ofList format.pattern}`", {}⟩

/-- Parses a local date and time. -/
def parseDatetime (format : JavaDateFormat) (text : List Char) : Except CdmError NaiveDateTime :=
  match readFields format.fields text {} with
  | some ([], parts) =>
    match parts.build with
    | some value => .ok value
    | none => .error (parseError format text)
  | _ => .error (parseError format text)

end Reading

end DateFormat

end Cdm
