import Cdm.Codec.Types
import Cdm.Lib.BigEndian
import Mathlib.Data.Nat.Size

/-!
# Scalars and JSON values in the target's representation

A scalar is given as text, and serialized for the type of the column it is written to; a JSON value
is rendered as text first.

The crates that read numbers, addresses and dates are a parameter: `LiteralParsers` holds what they
return for a text, or the message of their error.  Integers of the machine types are read as the
standard library reads them.
-/

namespace Cdm

/-- The parsers the encoder relies on. -/
class LiteralParsers where
  /-- The four bytes of an `f32`. -/
  f32 : String → Except String Bytes
  /-- The eight bytes of an `f64`. -/
  f64 : String → Except String Bytes
  bigInt : String → Except String ℤ
  /-- The two's complement form of an integer, in big-endian order. -/
  signedBytesBe : ℤ → Bytes
  /-- The unscaled value and the scale. -/
  bigDecimal : String → Except String (ℤ × ℤ)
  uuid : String → Except String Bytes
  /-- The four or sixteen octets. -/
  ipAddr : String → Except String Bytes
  /-- The epoch milliseconds of an RFC 3339 date-time. -/
  rfc3339 : String → Option ℤ
  /-- The epoch milliseconds of a date-time in the given pattern, read as UTC. -/
  naiveDateTime : String → String → Option ℤ
  /-- The days from the epoch to a date written `%Y-%m-%d`. -/
  naiveDate : String → Except String ℤ
  /-- The nanoseconds since midnight of a time in the given pattern. -/
  naiveTime : String → String → Option ℤ

/-- Parsers that accept nothing, so that only what the standard library reads is left. -/
@[reducible] def LiteralParsers.rejecting : LiteralParsers where
  f32 _ := .error "invalid float literal"
  f64 _ := .error "invalid float literal"
  bigInt _ := .error "invalid digit found in string"
  signedBytesBe value :=
    BigEndian.ofInt ((if value < 0 then (-value - 1).toNat else value.toNat).size / 8 + 1) value
  bigDecimal _ := .error "invalid digit found in string"
  uuid _ := .error "invalid character"
  ipAddr _ := .error "invalid IP address syntax"
  rfc3339 _ := none
  naiveDateTime _ _ := none
  naiveDate _ := .error "input contains invalid characters"
  naiveTime _ _ := none

/-- What an evaluation ends with instead of a value. -/
inductive Halt (ε : Type)
  | error (e : ε)
  /-- An `i64` overflow. -/
  | overflow
  deriving DecidableEq, Repr

def Halt.map {ε ε' : Type} (f : ε → ε') : Halt ε → Halt ε'
  | error e => error (f e)
  | overflow => overflow

namespace Literal

/-- A literal that does not have the form its type asks for. -/
def invalid (literal : String) (cqlType : CqlTypeInfo) (detail : String) : CdmError :=
  ⟨.typeConversion, s!"`{literal}` is not a valid {cqlType} literal: {detail}", {}⟩

/-! ### Machine integers -/

/-- The digits that remain of a machine integer, most significant first.  A digit is looked at before
an overflow of those before it is reported. -/
def parseIntDigits (low high : ℤ) (negative : Bool) : ℤ → List Char → Except String ℤ
  | value, [] => .ok value
  | value, c :: cs =>
    let next := if negative then value * 10 - (c.toNat - 48 : ℤ) else value * 10 + (c.toNat - 48 : ℤ)
    if !c.isDigit then .error "invalid digit found in string"
    else if next < low then .error "number too small to fit in target type"
    else if high < next then .error "number too large to fit in target type"
    else parseIntDigits low high negative next cs

/-- `str::parse` for a machine integer between `low` and `high`. -/
def parseInt (low high : ℤ) (text : List Char) : Except String ℤ :=
  match text with
  | [] => .error "cannot parse integer from empty string"
  | ['+'] | ['-'] => .error "invalid digit found in string"
  | '-' :: cs => parseIntDigits low high true 0 cs
  | '+' :: cs => parseIntDigits low high false 0 cs
  | cs => parseIntDigits low high false 0 cs

/-- A machine integer of `width` bytes, in big-endian order. -/
def encodeInt (width : ℕ) (text : String) : Except String Bytes :=
  (parseInt (-2 ^ (8 * width - 1)) (2 ^ (8 * width - 1) - 1) text.toList).map (BigEndian.ofInt width)

/-! ### Blobs, dates and times -/

/-- The value of a hexadecimal digit. -/
def hexValue (c : Char) : Option ℕ :=
  if c.isDigit then some (c.toNat - 48)
  else if 'a' ≤ c ∧ c ≤ 'f' then some (c.toNat - 87)
  else if 'A' ≤ c ∧ c ≤ 'F' then some (c.toNat - 55)
  else none

/-- `u8::from_str_radix` of two hexadecimal digits, the first of which may be a plus sign. -/
def hexPair (high low : Char) : Except String UInt8 :=
  let high := if high = '+' then some 0 else hexValue high
  match high, hexValue low with
  | some h, some l => .ok (UInt8.ofNat (16 * h + l))
  | _, _ => .error "invalid digit found in string"

def hexPairs : List Char → Except String Bytes
  | [] => .ok []
  | [_] => .error "hex string has an odd length"
  | high :: low :: rest => do
    let byte ← hexPair high low
    let bytes ← hexPairs rest
    return byte :: bytes

def parseBlob (text : String) : Except String Bytes :=
  let chars := text.toList
  let hex := ((Text.stripPrefix ['0', 'x'] chars).or (Text.stripPrefix ['0', 'X'] chars)).getD chars
  if Text.utf8Len hex % 2 = 0 then hexPairs hex else .error "hex string has an odd length"

variable [LiteralParsers]

/-- Epoch milliseconds, or a date-time. -/
def parseTimestamp (text : String) : Except String ℤ :=
  let patterns := ["%Y-%m-%d %H:%M:%S%.f", "%Y-%m-%dT%H:%M:%S%.f", "%Y-%m-%d %H:%M",
    "%Y-%m-%dT%H:%M"]
  match Text.parseI64 text.toList with
  | some millis => .ok millis
  | none =>
    match LiteralParsers.rfc3339 text with
    | some millis => .ok millis
    | none =>
      match patterns.findSome? (LiteralParsers.naiveDateTime text) with
      | some millis => .ok millis
      | none =>
        match LiteralParsers.naiveDate text with
        | .ok days => .ok (days * 86400000)
        | .error _ => .error "expected epoch milliseconds or an ISO-8601 date-time"

/-- The sum of two integers in an `i64`. -/
def addI64 {ε : Type} (a b : ℤ) : Except (Halt ε) ℤ :=
  if -2 ^ 63 ≤ a + b ∧ a + b < 2 ^ 63 then .ok (a + b) else .error .overflow

/-- The days of a date, counted from the epoch. -/
def parseDays (text : String) : Except String ℤ :=
  match Text.parseI64 text.toList with
  | some days => .ok days
  | none => LiteralParsers.naiveDate text

/-- Days since the epoch, biased by `2 ^ 31`. -/
def parseDateChecked (text : String) : Except (Halt String) ℕ := do
  let days ← (parseDays text).mapError .error
  let biased ← addI64 days (2 ^ 31)
  if 0 ≤ biased ∧ biased < 2 ^ 32 then .ok biased.toNat
  else .error (.error "date is outside the representable range")

/-- `parseDateChecked` in a build without overflow checks: a sum that wraps is out of range. -/
def parseDate (text : String) : Except String ℕ :=
  (parseDateChecked text).mapError fun halt =>
    match halt with
    | .error e => e
    | .overflow => "date is outside the representable range"

/-- Nanoseconds since midnight. -/
def parseTime (text : String) : Except String ℤ :=
  match Text.parseI64 text.toList with
  | some nanos => .ok nanos
  | none =>
    match ["%H:%M:%S%.f", "%H:%M"].findSome? (LiteralParsers.naiveTime text) with
    | some nanos => .ok nanos
    | none => .error "expected nanoseconds since midnight or `HH:MM:SS`"

/-! ### Scalars -/

/-- The serialized form of a decimal: its scale, and the unscaled value. -/
def encodeDecimal (text : String) : Except String Bytes := do
  let (unscaled, scale) ← LiteralParsers.bigDecimal text
  if -2 ^ 31 ≤ scale ∧ scale < 2 ^ 31 then
    .ok (BigEndian.ofInt 4 scale ++ if unscaled = 0 then [0] else LiteralParsers.signedBytesBe unscaled)
  else .error "scale does not fit in 32 bits"

/-- Serializes a scalar of a primitive type; `none` for a type that has no literals. -/
def encodePrimitive (text : String) : Primitive → Option (Except String Bytes)
  | .text => some (.ok text.toUTF8.data.toList)
  | .ascii =>
    some (if text.toList.all fun c => c.toNat < 128 then .ok text.toUTF8.data.toList
      else .error "value contains non-ASCII bytes")
  | .boolean =>
    some (if Text.toLower text.toList = "true".toList then .ok [1]
      else if Text.toLower text.toList = "false".toList then .ok [0]
      else .error "expected `true` or `false`")
  | .tinyInt => some (encodeInt 1 text)
  | .smallInt => some (encodeInt 2 text)
  | .int => some (encodeInt 4 text)
  | .bigInt | .counter => some (encodeInt 8 text)
  | .float => some (LiteralParsers.f32 text)
  | .double => some (LiteralParsers.f64 text)
  | .varInt =>
    some ((LiteralParsers.bigInt text).map fun value =>
      if value = 0 then [0] else LiteralParsers.signedBytesBe value)
  | .decimal => some (encodeDecimal text)
  | .uuid | .timeUuid => some (LiteralParsers.uuid text)
  | .inet => some (LiteralParsers.ipAddr text)
  | .blob => some (parseBlob text)
  | .timestamp => some ((parseTimestamp text).map (BigEndian.ofInt 8))
  | .date => some ((parseDate text).map (BigEndian.ofNat 4))
  | .time => some ((parseTime text).map (BigEndian.ofInt 8))
  | .duration | .point | .lineString | .polygon | .dateRange => none

/-- Serializes an unquoted scalar; `literal` is the text its error names. -/
def encodeScalar (value : String) (cqlType : CqlTypeInfo) (literal : String) :
    Except CdmError Bytes :=
  let encoded := match cqlType with
    | .primitive kind => encodePrimitive value kind
    | _ => none
  match encoded with
  | some result => result.mapError (invalid literal cqlType)
  | none => .error (invalid literal cqlType
      "cdm-rs cannot express a constant of this type; supply it from the origin instead")

end Literal

/-! ### JSON values -/

/-- A JSON document.  A number is kept as it is rendered. -/
inductive JsonValue
  | null
  | bool (value : Bool)
  | number (text : String)
  | string (text : String)
  | array (elements : List JsonValue)
  | object (fields : List (String × JsonValue))

/-- What went wrong with a document, and where. -/
structure JsonError where
  category : String
  line : ℕ
  column : ℕ

/-- What the extraction uses of the JSON crate. -/
class SerdeJson where
  fromStr : String → Except JsonError JsonValue
  /-- A value as compact JSON. -/
  render : JsonValue → String
  /-- The value an RFC 6901 pointer addresses. -/
  pointer : JsonValue → String → Option JsonValue

/-- A crate that reads no document. -/
@[reducible] def SerdeJson.rejecting : SerdeJson where
  fromStr _ := .error ⟨"expected value", 1, 1⟩
  render _ := ""
  pointer _ _ := none

namespace JsonValue

/-- The named property of an object. -/
def get (document : JsonValue) (name : String) : Option JsonValue :=
  match document with
  | object fields => (fields.find? (·.1 = name)).map Prod.snd
  | _ => none

variable [LiteralParsers] [SerdeJson]

/-- An object or an array, which only a text column can hold. -/
def encodeCompound (value : JsonValue) (cqlType : CqlTypeInfo) : Except CdmError RawCell :=
  let rendered := SerdeJson.render value
  if cqlType = .primitive .text ∨ cqlType = .primitive .ascii then
    (Literal.encodeScalar rendered cqlType rendered).map some
  else .error (Literal.invalid rendered cqlType
    "a JSON object or array can only be extracted into a text column")

/-- Serializes a JSON value into a target column type. -/
def encode (value : JsonValue) (cqlType : CqlTypeInfo) : Except CdmError RawCell :=
  match value with
  | null => .ok none
  | string text | number text => (Literal.encodeScalar text cqlType text).map some
  | bool flag =>
    let rendered := if flag then "true" else "false"
    (Literal.encodeScalar rendered cqlType rendered).map some
  | array elements => encodeCompound (array elements) cqlType
  | object fields => encodeCompound (object fields) cqlType

end JsonValue

end Cdm
