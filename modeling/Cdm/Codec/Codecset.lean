import Cdm.Codec.DateFormat
import Cdm.Codec.DateRangeBytes
import Cdm.Codec.Geometry
import Cdm.Codec.VarintBytes

/-!
# The named codecs

The thirteen codecs a configuration can name, each of which converts one pair of types both ways,
and the registry of those that are enabled.

What they convert with is a parameter where it is a crate's: `F64` for doubles, `ChronoUtc` for
instants, and `CodecCrates` for the rest.
-/

namespace Cdm

open List

/-- The named codec set. -/
inductive Codecset
  | intString
  | doubleString
  | bigintString
  | bigintBiginteger
  | decimalString
  | timestampStringMillis
  | timestampStringFormat
  | pointType
  | polygonType
  | dateRange
  | lineString
  | stringBlob
  | asciiBlob
  deriving DecidableEq, Repr

/-- What the codecs use of the crates for numbers, besides what literals are read with. -/
class CodecCrates where
  big : SignedBytes
  /-- `BigDecimal::to_string`, of an unscaled value and its scale. -/
  decimalText : ℤ × ℤ → String
  /-- Stands for the outcome of a conversion that panics: the task ends, and nothing is returned. -/
  panicked : CdmError

/-- The settings of `TIMESTAMP_STRING_FORMAT`, with the offset of its zone in seconds. -/
structure TimestampFormat where
  format : JavaDateFormat
  offset : ℤ

/-! ### Doubles as text -/

section Doubles

variable {F : Type} [F64 F] [LiteralParsers]

/-- `with_scale_round` to nine digits, or to none where the scale is negative, rounding down. -/
def roundedFloor : ℤ × ℤ → ℤ × ℤ
  | (unscaled, scale) =>
    if 9 < scale then (unscaled / 10 ^ (scale - 9).toNat, 9)
    else if scale < 0 then (unscaled * 10 ^ (-scale).toNat, 0)
    else (unscaled, scale)

/-- Positional notation, never exponential. -/
def plainString : ℤ × ℤ → List Char
  | (unscaled, scale) =>
    let sign := if unscaled < 0 then ['-'] else []
    let digits := (Nat.repr unscaled.natAbs).toList
    if scale ≤ 0 then sign ++ digits ++ List.replicate (-scale).toNat '0'
    else
      let scale := scale.toNat
      if scale < digits.length then
        sign ++ digits.take (digits.length - scale) ++ '.' :: digits.drop (digits.length - scale)
      else sign ++ '0' :: '.' :: (List.replicate (scale - digits.length) '0' ++ digits)

/-- Formats a double as `0.#########` does, rounding down. -/
def formatDoubleJava (value : F) : String :=
  let bits := BigEndian.toNat (F64.toBeBytes value)
  let negative := 2 ^ 63 ≤ bits
  let exponent := bits / 2 ^ 52 % 2 ^ 11
  if exponent = 2047 ∧ bits % 2 ^ 52 ≠ 0 then "NaN"
  else if exponent = 2047 then if negative then "-∞" else "∞"
  else
    let shortest := String.ofList (F64.display value)
    match LiteralParsers.bigDecimal shortest with
    | .error _ => shortest
    | .ok decimal =>
      let text := plainString (roundedFloor decimal)
      let text :=
        if text.contains '.' then Text.trimEndMatches '.' (Text.trimEndMatches '0' text) else text
      -- a decimal has no negative zero
      String.ofList (if negative ∧ text.head? ≠ some '-' then '-' :: text else text)

/-- Parses a double. -/
def parseDoubleJava (text : String) : Except CdmError Bytes :=
  (LiteralParsers.f64 (String.ofList (Text.trim text.toList))).mapError fun e =>
    Wire.conversionError s!"`{text}` is not a double: {e}"

end Doubles

/-! ### Timestamps in a pattern -/

namespace TimestampFormat

variable [ChronoUtc] [CodecCrates] (settings : TimestampFormat)

/-- Renders epoch milliseconds. -/
def formatMillis (millis : ℤ) : Except CdmError (List Char) :=
  match ChronoUtc.fromTimestampMillis millis with
  | none => .error (Wire.conversionError s!"{millis} is not a representable instant")
  | some instant =>
    -- a local time outside of the type panics, and so does a width that cannot be padded to
    match (ChronoUtc.checkedAdd instant (1000 * settings.offset)).bind
      (DateFormat.formatDatetime settings.format) with
    | some text => .ok text
    | none => .error CodecCrates.panicked

/-- Parses text into epoch milliseconds. -/
def parseMillis (text : String) : Except CdmError ℤ := do
  let parsed ← DateFormat.parseDatetime settings.format text.toList
  match ChronoUtc.checkedAdd parsed (-1000 * settings.offset) with
  | some instant => return ChronoUtc.timestampMillis instant
  | none => throw (Wire.conversionError s!"`{text}` is not a representable instant")

end TimestampFormat

/-! ### The conversions themselves -/

namespace Wire

/-- Reads an `int`. -/
def readI32 (bytes : Bytes) : Except CdmError ℤ := do
  let bytes ← fixed 4 "int" bytes
  return BigEndian.toInt bytes

/-- Reads `ascii`. -/
def readAscii (bytes : Bytes) : Except CdmError Bytes :=
  if bytes.all (· < 128) then .ok bytes
  else .error (conversionError "value is not valid US-ASCII: it contains a byte above 0x7F")

variable [CodecCrates]

/-- Reads a `decimal`: its scale, and the unscaled value. -/
def readDecimal (bytes : Bytes) : Except CdmError (ℤ × ℤ) := do
  let (scale, rest) ← takeI32 bytes
  let unscaled ← readVarint CodecCrates.big rest
  return (unscaled, scale)

/-- Serialises a `decimal`. -/
def writeDecimal : ℤ × ℤ → Except CdmError Bytes
  | (unscaled, scale) =>
    if -2 ^ 31 ≤ scale ∧ scale < 2 ^ 31 then
      .ok (writeI32 scale ++ writeVarint CodecCrates.big unscaled)
    else .error (conversionError s!"decimal scale {scale} does not fit in 32 bits")

end Wire

namespace Builtin

open Wire

/-- The bytes of a text. -/
def textBytes (text : String) : Bytes := text.toUTF8.data.toList

def intToText (bytes : Bytes) : Except CdmError Bytes := do
  let value ← Wire.readI32 bytes
  return textBytes (toString value)

def bigintToText (bytes : Bytes) : Except CdmError Bytes := do
  let value ← readI64 bytes
  return textBytes (toString value)

def blobToAscii (bytes : Bytes) : Except CdmError Bytes := readAscii bytes

/-- A buffer of eight bytes is a timestamp; anything else is text already. -/
def timestampToMillisText (bytes : Bytes) : Except CdmError Bytes :=
  if bytes.length = 8 then bigintToText bytes else .ok bytes

def millisTextToTimestamp : Converter := textToInteger 8 "an epoch-millis timestamp"

section Doubles

variable (F : Type) [F64 F] [LiteralParsers]

def doubleToText (bytes : Bytes) : Except CdmError Bytes := do
  let bytes ← fixed 8 "double" bytes
  return textBytes (formatDoubleJava (F64.fromBeBytes bytes : F))

def textToDouble (bytes : Bytes) : Except CdmError Bytes := do
  let text ← readText bytes
  parseDoubleJava text

end Doubles

section Crates

variable [CodecCrates]

def decimalToText (bytes : Bytes) : Except CdmError Bytes := do
  let value ← readDecimal bytes
  return textBytes (CodecCrates.decimalText value)

def textToDecimal [LiteralParsers] (bytes : Bytes) : Except CdmError Bytes := do
  let text ← readText bytes
  let value ← (LiteralParsers.bigDecimal text).mapError fun e =>
    conversionError s!"`{text}` is not a decimal: {e}"
  writeDecimal value

variable [ChronoUtc]

def dateRangeToText (bytes : Bytes) : Except CdmError Bytes := do
  let range ← DateRange.fromBytes bytes
  return textBytes (String.ofList range.toText)

def textToDateRange (bytes : Bytes) : Except CdmError Bytes := do
  let text ← readText bytes
  match DateRange.parse text.toList with
  | .ok range => return range.toBytes
  | .error (.error e) => throw e
  | .error .panic => throw CodecCrates.panicked

def timestampToFormatText (settings : TimestampFormat) (bytes : Bytes) : Except CdmError Bytes := do
  let millis ← readI64 bytes
  let text ← settings.formatMillis millis
  return textBytes (String.ofList text)

def formatTextToTimestamp (settings : TimestampFormat) (bytes : Bytes) : Except CdmError Bytes := do
  let text ← readText bytes
  let millis ← settings.parseMillis text
  return writeI64 millis

end Crates

end Builtin

/-! ### The codecs -/

namespace Codecset

/-- The configuration name. -/
def name : Codecset → String
  | intString => "INT_STRING"
  | doubleString => "DOUBLE_STRING"
  | bigintString => "BIGINT_STRING"
  | bigintBiginteger => "BIGINT_BIGINTEGER"
  | decimalString => "DECIMAL_STRING"
  | timestampStringMillis => "TIMESTAMP_STRING_MILLIS"
  | timestampStringFormat => "TIMESTAMP_STRING_FORMAT"
  | pointType => "POINT_TYPE"
  | polygonType => "POLYGON_TYPE"
  | dateRange => "DATE_RANGE"
  | lineString => "LINE_STRING"
  | stringBlob => "STRING_BLOB"
  | asciiBlob => "ASCII_BLOB"

/-- Every codec, in the order of the names, which is that of a registry. -/
def byName : List Codecset :=
  [asciiBlob, bigintBiginteger, bigintString, dateRange, decimalString, doubleString, intString,
    lineString, pointType, polygonType, stringBlob, timestampStringFormat, timestampStringMillis]

/-- Both ways between two types. -/
def both (a b : Primitive) (forth back : Converter) : List CodecEntry :=
  [⟨.primitive a, .primitive b, forth⟩, ⟨.primitive b, .primitive a, back⟩]

def settingsRequired : CdmError :=
  CdmError.withConfigKey ⟨.config, "codec TIMESTAMP_STRING_FORMAT requires " ++
    "transform.codecs.timestamp_format and transform.codecs.timestamp_format_zone", {}⟩
    "transform.codecs.timestamp_format"

open Builtin

variable (F : Type) [F64 F] [LiteralParsers] [CodecCrates] [ChronoUtc]

/-- The conversions of a codec. -/
def conversions (settings : Option TimestampFormat) : Codecset → Except CdmError (List CodecEntry)
  | intString => .ok (both .int .text (fnConverter intToText) textToInt)
  | doubleString =>
    .ok (both .double .text (fnConverter (doubleToText F)) (fnConverter textToDouble))
  | bigintString => .ok (both .bigInt .text (fnConverter bigintToText) textToBigint)
  | decimalString =>
    .ok (both .decimal .text (fnConverter decimalToText) (fnConverter textToDecimal))
  | bigintBiginteger =>
    .ok (both .bigInt .varInt (bigintToVarint CodecCrates.big) (varintToBigint CodecCrates.big))
  | stringBlob => .ok (both .text .blob identityBytes blobToText)
  | asciiBlob => .ok (both .ascii .blob identityBytes (fnConverter blobToAscii))
  | timestampStringMillis =>
    .ok (both .timestamp .text (fnConverter timestampToMillisText) millisTextToTimestamp)
  | timestampStringFormat =>
    match settings with
    | none => .error settingsRequired
    | some settings => .ok (both .timestamp .text (fnConverter (timestampToFormatText settings))
        (fnConverter (formatTextToTimestamp settings)))
  | pointType => .ok (both .point .text (pointToText F) (textToPoint F))
  | lineString => .ok (both .lineString .text (lineStringToText F) (textToLineString F))
  | polygonType => .ok (both .polygon .text (polygonToText F) (textToPolygon F))
  | dateRange =>
    .ok (both .dateRange .text (fnConverter dateRangeToText) (fnConverter textToDateRange))

/-- The conversion is one of the codec's. -/
def Converts (settings : Option TimestampFormat) (codec : Codecset) (entry : CodecEntry) : Prop :=
  ∃ entries, conversions F settings codec = .ok entries ∧ entry ∈ entries

end Codecset

/-! ### The registry -/

namespace CodecRegistry

/-- Whether the entry converts between these types. -/
def Claims (origin target : CqlTypeInfo) (entry : CodecEntry) : Prop :=
  (entry.origin.sameType origin && entry.target.sameType target) = true

instance (origin target : CqlTypeInfo) (entry : CodecEntry) :
    Decidable (Claims origin target entry) := inferInstanceAs (Decidable (_ = true))

def claimedTwice (existing codec : Codecset) (entry : CodecEntry) : CdmError :=
  CdmError.withConfigKey ⟨.config, s!"conversion {entry.origin} -> {entry.target} is claimed by " ++
    s!"both codec `{existing.name}` (from `cdm-codec`) and codec `{codec.name}` " ++
    "(from `cdm-codec`)", {}⟩ "transform.codecs"

/-- Adds the conversions of a codec, unless another one claims the same types. -/
def register (codec : Codecset) : List CodecEntry → List (Codecset × CodecEntry) →
    Except CdmError (List (Codecset × CodecEntry))
  | [], registered => .ok registered
  | entry :: entries, registered =>
    match registered.find? fun existing => Claims entry.origin entry.target existing.2 with
    | some existing => .error (claimedTwice existing.1 codec entry)
    | none => register codec entries (registered ++ [(codec, entry)])

variable (F : Type) [F64 F] [LiteralParsers] [CodecCrates] [ChronoUtc]

/-- Adds the codecs, one after the other. -/
def registerAll (settings : Option TimestampFormat) : List Codecset →
    List (Codecset × CodecEntry) → Except CdmError (List (Codecset × CodecEntry))
  | [], registered => .ok registered
  | codec :: codecs, registered => do
    let entries ← codec.conversions F settings
    let registered ← register codec entries registered
    registerAll settings codecs registered

/-- The codecs of a run: those that are enabled, and the one that is there always. -/
def wanted (enabled : List Codecset) : List Codecset :=
  Codecset.byName.filter fun codec => codec == .bigintBiginteger || enabled.contains codec

/-- The registry of the named codecs.  The one that needs settings is built before any is
registered. -/
def withBuiltins (enabled : List Codecset) (settings : Option TimestampFormat) :
    Except CdmError CodecRegistry :=
  if enabled.contains .timestampStringFormat && settings.isNone then
    .error Codecset.settingsRequired
  else (registerAll F settings (wanted enabled) []).map fun registered => ⟨registered.map Prod.snd⟩

end CodecRegistry

/-! ### What is registered -/

namespace CodecRegistry

/-- No two of the conversions are between the same types. -/
def Unambiguous (registered : List (Codecset × CodecEntry)) : Prop :=
  registered.Pairwise fun a b => ¬Claims b.2.origin b.2.target a.2

theorem register_spec {codec : Codecset} {entries : List CodecEntry}
    {registered out : List (Codecset × CodecEntry)} (h : register codec entries registered = .ok out)
    (hunambiguous : Unambiguous registered) :
    out = registered ++ entries.map (Prod.mk codec) ∧ Unambiguous out := by
  induction entries generalizing registered with
  | nil =>
    cases h
    exact ⟨(append_nil _).symm, hunambiguous⟩
  | cons entry entries ih =>
    rw [register] at h
    split at h
    · cases h
    · next hnone =>
      obtain ⟨rfl, hout⟩ := ih h (by
        rw [Unambiguous, pairwise_append]
        refine ⟨hunambiguous, pairwise_singleton _ _, ?_⟩
        intro existing hexisting added hadded
        rw [mem_singleton.1 hadded]
        simpa using find?_eq_none.1 hnone existing hexisting)
      exact ⟨by simp, hout⟩

/-- A codec that is there: enabled, or the one that always is. -/
def IsWanted (enabled : List Codecset) (codec : Codecset) : Prop :=
  codec = .bigintBiginteger ∨ codec ∈ enabled

theorem mem_wanted_iff {enabled : List Codecset} {codec : Codecset} :
    codec ∈ wanted enabled ↔ IsWanted enabled codec := by
  have hall : codec ∈ Codecset.byName := by
    cases codec <;> decide
  simp [wanted, IsWanted, hall]

theorem claims_primitive_iff {a b : Primitive} {entry : CodecEntry} :
    Claims (.primitive a) (.primitive b) entry ↔
      entry.origin = .primitive a ∧ entry.target = .primitive b := by
  have hsame (t : CqlTypeInfo) (p : Primitive) :
      t.sameType (.primitive p) = true ↔ t = .primitive p := by
    cases t <;> simp [CqlTypeInfo.sameType]
  rw [Claims, Bool.and_eq_true, hsame, hsame]

section Registered

variable {F : Type} [F64 F] [LiteralParsers] [CodecCrates] [ChronoUtc]
  {settings : Option TimestampFormat}

theorem registerAll_spec {codecs : List Codecset} {registered out : List (Codecset × CodecEntry)}
    (h : registerAll F settings codecs registered = .ok out) (hunambiguous : Unambiguous registered) :
    Unambiguous out ∧ ∀ codec entry, (codec, entry) ∈ out ↔
      (codec, entry) ∈ registered ∨ codec ∈ codecs ∧ Codecset.Converts F settings codec entry := by
  induction codecs generalizing registered with
  | nil =>
    cases h
    exact ⟨hunambiguous, by simp⟩
  | cons codec codecs ih =>
    obtain ⟨entries, hentries, h⟩ := Fallible.bind_eq_ok.1 h
    obtain ⟨next, hnext, h⟩ := Fallible.bind_eq_ok.1 h
    obtain ⟨rfl, hnext⟩ := register_spec hnext hunambiguous
    obtain ⟨hout, hmem⟩ := ih h hnext
    refine ⟨hout, ?_⟩
    intro other entry
    have hconverts : Codecset.Converts F settings codec entry ↔ entry ∈ entries := by
      simp [Codecset.Converts, hentries]
    rw [hmem, mem_append, mem_cons, mem_map]
    constructor
    · rintro ((hregistered | ⟨_, hentry, heq⟩) | ⟨hcodecs, hentry⟩)
      · exact .inl hregistered
      · cases heq
        exact .inr ⟨.inl rfl, hconverts.2 hentry⟩
      · exact .inr ⟨.inr hcodecs, hentry⟩
    · rintro (hregistered | ⟨rfl | hcodecs, hentry⟩)
      · exact .inl (.inl hregistered)
      · exact .inl (.inr ⟨entry, hconverts.1 hentry, rfl⟩)
      · exact .inr ⟨hcodecs, hentry⟩

/-- The conversions of a registry: those of the codecs that are there, and no other for the same
primitive types. -/
theorem converter_eq_some_iff {enabled : List Codecset} {registry : CodecRegistry}
    (h : withBuiltins F enabled settings = .ok registry) {a b : Primitive} {converter : Converter} :
    registry.converter (.primitive a) (.primitive b) = some converter ↔
      ∃ codec, IsWanted enabled codec ∧
        Codecset.Converts F settings codec ⟨.primitive a, .primitive b, converter⟩ := by
  rw [withBuiltins] at h
  split_ifs at h
  obtain ⟨registered, hregistered, rfl⟩ := Fallible.map_eq_ok.1 h
  obtain ⟨hunambiguous, hmem⟩ := registerAll_spec hregistered List.Pairwise.nil
  simp only [not_mem_nil, false_or, mem_wanted_iff] at hmem
  simp only [CodecRegistry.converter, find?_map, Option.map_map, Option.map_eq_some_iff]
  constructor
  · rintro ⟨⟨codec, entry⟩, hfind, rfl⟩
    have hclaims := find?_some hfind
    obtain ⟨horigin, htarget⟩ := claims_primitive_iff.1 hclaims
    rw [← horigin, ← htarget]
    exact ⟨codec, (hmem codec entry).1 (mem_of_find?_eq_some hfind)⟩
  · rintro ⟨codec, hconverts⟩
    obtain ⟨before, after, rfl⟩ := append_of_mem ((hmem codec _).2 hconverts)
    refine ⟨_, find?_eq_some_iff_append.2 ⟨?_, before, after, rfl, ?_⟩, rfl⟩
    · exact claims_primitive_iff.2 ⟨rfl, rfl⟩
    · intro existing hexisting
      have hclaims := (pairwise_append.1 hunambiguous).2.2 existing hexisting _ mem_cons_self
      rw [Bool.not_eq_true']
      exact eq_false_of_ne_true hclaims

end Registered

end CodecRegistry

/-! ### Conversions that fail with one text -/

/-- Where the conversion fails, it fails with one text whatever the bytes. -/
def OneText {α : Type} (f : Bytes → Except CdmError α) : Prop :=
  ∀ bytes bytes' e e', f bytes = .error e → f bytes' = .error e' → toString e = toString e'

theorem OneText.of_ne_error {α : Type} {f : Bytes → Except CdmError α}
    (h : ∀ bytes e, f bytes ≠ .error e) : OneText f :=
  fun bytes _ e _ he _ => absurd he (h bytes e)

/-- A conversion with one error at most fails with one text. -/
theorem OneText.of_error {α : Type} {f : Bytes → Except CdmError α} (only : CdmError)
    (h : ∀ bytes e, f bytes = .error e → e = only) : OneText f := by
  intro bytes bytes' e e' he he'
  rw [h bytes e he, h bytes' e' he']

/-- Errors that differ in the message alone differ in their text. -/
theorem CdmError.message_inj {e e' : CdmError} (h : toString e = toString e')
    (hkind : e.kind = e'.kind) (hcontext : e.context = e'.context) : e.message = e'.message := by
  have htext : e.kind.heading ++ ": " ++ e.message ++ toString e.context =
      e'.kind.heading ++ ": " ++ e'.message ++ toString e'.context := h
  rw [hkind, hcontext, String.append_left_inj, String.append_right_inj] at htext
  exact htext

/-- A conversion that fails on two values with different messages. -/
theorem not_oneText {α : Type} {f : Bytes → Except CdmError α} (bytes bytes' : Bytes)
    (message message' : String) (h : f bytes = .error (Wire.conversionError message))
    (h' : f bytes' = .error (Wire.conversionError message')) (hne : message ≠ message') :
    ¬OneText f := by
  intro hone
  exact hne (CdmError.message_inj (hone _ _ _ _ h h') rfl rfl)

/-- What a conversion begins with fails with one text if the whole does. -/
theorem OneText.of_bind {α β : Type} {f : Bytes → Except CdmError α}
    {g : Bytes → α → Except CdmError β} (h : OneText fun bytes => f bytes >>= g bytes) :
    OneText f := by
  have hbind {bytes : Bytes} {e : CdmError} (he : f bytes = .error e) :
      (f bytes >>= g bytes) = .error e := by
    rw [he]
    rfl
  intro bytes bytes' e e' he he'
  exact h bytes bytes' e e' (hbind he) (hbind he')

/-- What is done with the result of a conversion changes nothing of how it fails. -/
theorem oneText_map_iff {α β : Type} {f : Bytes → Except CdmError α} {g : α → β} :
    (OneText fun bytes => (f bytes).map g) ↔ OneText f := by
  have hmap (bytes : Bytes) (e : CdmError) : (f bytes).map g = .error e ↔ f bytes = .error e := by
    cases f bytes <;> simp [Except.map]
  simp only [OneText, hmap]

namespace Builtin

open Wire

/-- The reading of a text shows where the bytes stop being UTF-8. -/
theorem not_oneText_readText : ¬OneText readText :=
  not_oneText [0xff] [0x61, 0xff]
    "value is not valid UTF-8 text: invalid utf-8 sequence of 1 bytes from index 0"
    "value is not valid UTF-8 text: invalid utf-8 sequence of 1 bytes from index 1" rfl rfl (by decide)

/-- The reading of a fixed width shows the length of the value. -/
theorem not_oneText_fixed (width : ℕ) (what : String) : ¬OneText (fixed width what) := by
  have hfixed (bytes : Bytes) (h : bytes.length ≠ width) :
      fixed width what bytes = .error (conversionError
        s!"expected {width} bytes for a {what} value, got {bytes.length}") := if_neg h
  refine not_oneText (List.replicate (width + 1) 0) (List.replicate (width + 2) 0) _ _
    (hfixed _ (by simp)) (hfixed _ (by simp)) ?_
  intro heq
  rw [length_replicate, length_replicate] at heq
  have hrepr : Nat.repr (width + 1) = Nat.repr (width + 2) := by simpa using heq
  exact absurd (Text.repr_inj hrepr) (by omega)

/-- The reading of a length shows how many bytes there are. -/
theorem not_oneText_takeI32 : ¬OneText takeI32 :=
  not_oneText [] [0] "truncated serialised value: wanted 4 more bytes, 0 remain"
    "truncated serialised value: wanted 4 more bytes, 1 remain" rfl rfl (by decide)

theorem not_oneText_fromWkb (F : Type) [F64 F] :
    ¬OneText (Geometry.fromWkb : Bytes → Except CdmError (Geometry F)) :=
  not_oneText [] [1] "empty well-known binary value" "truncated well-known binary value" rfl rfl
    (by decide)

theorem not_oneText_fromBytes : ¬OneText DateRange.fromBytes :=
  not_oneText [] [0] "empty date-range value" "truncated date-range bound" rfl rfl (by decide)

end Builtin

namespace Codecset

open Builtin Wire

/-- The conversions that show nothing of the values they fail on: those that do not fail, and two
that fail for one reason. -/
def isReticent : Codecset → Primitive → Primitive → Bool
  | stringBlob, .text, .blob | asciiBlob, .ascii, .blob | asciiBlob, .blob, .ascii
  | bigintBiginteger, .varInt, .bigInt | timestampStringMillis, .timestamp, .text => true
  | _, _, _ => false

/-- A codec that converts both ways shows of each way what it should. -/
theorem oneText_iff_of_both {codec : Codecset} {a b c d : Primitive} {forth back converter : Converter}
    (h : ⟨.primitive a, .primitive b, converter⟩ ∈ both c d forth back)
    (hforth : (OneText fun bytes => forth (some bytes)) ↔ codec.isReticent c d = true)
    (hback : (OneText fun bytes => back (some bytes)) ↔ codec.isReticent d c = true) :
    (OneText fun bytes => converter (some bytes)) ↔ codec.isReticent a b = true := by
  obtain heq | heq := mem_pair.1 h
  · cases heq
    exact hforth
  · cases heq
    exact hback

variable {F : Type} [F64 F] [LiteralParsers] [CodecCrates] [ChronoUtc]
  {settings : Option TimestampFormat}

theorem oneText_iff {codec : Codecset} {a b : Primitive} {converter : Converter}
    (h : Converts F settings codec ⟨.primitive a, .primitive b, converter⟩) :
    (OneText fun bytes => converter (some bytes)) ↔ codec.isReticent a b = true := by
  have hshows {f : Bytes → Except CdmError Bytes} (hf : ¬OneText f) :
      ¬OneText fun bytes => fnConverter f (some bytes) := mt oneText_map_iff.1 hf
  have htext {α : Type} {f : Bytes → String → Except CdmError α} :
      ¬OneText fun bytes => readText bytes >>= f bytes := mt OneText.of_bind not_oneText_readText
  have hi64 : ¬OneText readI64 := mt OneText.of_bind (not_oneText_fixed 8 "bigint")
  have hidentity : OneText fun bytes => identityBytes (some bytes) := by
    refine .of_ne_error ?_
    rintro bytes e ⟨⟩
  obtain ⟨entries, hentries, hmem⟩ := h
  cases codec with
  | intString =>
    cases hentries
    have hread : ¬OneText Wire.readI32 := mt OneText.of_bind (not_oneText_fixed 4 "int")
    exact oneText_iff_of_both hmem
      (iff_of_false (hshows (mt OneText.of_bind hread)) (by decide)) (iff_of_false htext (by decide))
  | doubleString =>
    cases hentries
    have hread : ¬OneText (fixed 8 "double") := not_oneText_fixed 8 "double"
    exact oneText_iff_of_both hmem
      (iff_of_false (hshows (mt OneText.of_bind hread)) (by decide))
      (iff_of_false (hshows htext) (by decide))
  | bigintString =>
    cases hentries
    exact oneText_iff_of_both hmem
      (iff_of_false (hshows (mt OneText.of_bind hi64)) (by decide)) (iff_of_false htext (by decide))
  | bigintBiginteger =>
    cases hentries
    refine oneText_iff_of_both hmem
      (iff_of_false (mt OneText.of_bind hi64) (by decide)) (iff_of_true (.of_error (conversionError "empty varint value") ?_) rfl)
    intro bytes e he
    rw [varintToBigint, readVarint] at he
    split_ifs at he
    · exact (Except.error.inj he).symm
    · cases he
  | decimalString =>
    cases hentries
    have hread : ¬OneText readDecimal := mt OneText.of_bind not_oneText_takeI32
    exact oneText_iff_of_both hmem
      (iff_of_false (hshows (mt OneText.of_bind hread)) (by decide))
      (iff_of_false (hshows htext) (by decide))
  | timestampStringMillis =>
    cases hentries
    refine oneText_iff_of_both hmem
      (iff_of_true (oneText_map_iff.2 (.of_ne_error ?_)) rfl)
      (iff_of_false htext (by decide))
    intro bytes e he
    rw [timestampToMillisText] at he
    split_ifs at he with hlen
    rw [bigintToText, readI64, fixed, if_pos hlen] at he
    cases he
  | timestampStringFormat =>
    cases settings with
    | none => cases hentries
    | some settings =>
      cases hentries
      exact oneText_iff_of_both hmem
        (iff_of_false (hshows (mt OneText.of_bind hi64)) (by decide))
        (iff_of_false (hshows htext) (by decide))
  | pointType | lineString | polygonType =>
    cases hentries
    exact oneText_iff_of_both hmem
      (iff_of_false (hshows (mt OneText.of_bind (not_oneText_fromWkb F))) (by decide))
      (iff_of_false (hshows htext) (by decide))
  | dateRange =>
    cases hentries
    exact oneText_iff_of_both hmem
      (iff_of_false (hshows (mt OneText.of_bind not_oneText_fromBytes)) (by decide))
      (iff_of_false (hshows htext) (by decide))
  | stringBlob =>
    cases hentries
    exact oneText_iff_of_both hmem
      (iff_of_true hidentity rfl) (iff_of_false htext (by decide))
  | asciiBlob =>
    cases hentries
    refine oneText_iff_of_both hmem
      (iff_of_true hidentity rfl)
      (iff_of_true (oneText_map_iff.2 (.of_error (conversionError
        "value is not valid US-ASCII: it contains a byte above 0x7F") ?_)) rfl)
    intro bytes e he
    rw [blobToAscii, readAscii] at he
    split_ifs at he
    exact (Except.error.inj he).symm

variable (F settings) in
theorem exists_converts {codec : Codecset} {a b : Primitive} (h : codec.isReticent a b = true) :
    ∃ converter, Converts F settings codec ⟨.primitive a, .primitive b, converter⟩ := by
  rw [isReticent.eq_def] at h
  split at h
  · exact ⟨_, _, rfl, mem_cons_self⟩
  · exact ⟨_, _, rfl, mem_cons_self⟩
  · exact ⟨_, _, rfl, mem_cons_of_mem _ mem_cons_self⟩
  · exact ⟨_, _, rfl, mem_cons_of_mem _ mem_cons_self⟩
  · exact ⟨_, _, rfl, mem_cons_self⟩
  · cases h

end Codecset

/-! ### Plans that fail with one text -/

namespace ConversionPlan

open Wire

/-- A plan that reads the framing of a value, before it converts anything in it. -/
def IsFramed : ConversionPlan → Prop
  | list _ | set _ | map _ _ | vector _ _ _ => True
  | tuple elements => elements ≠ []
  | udt fields => fields ≠ []
  | _ => False

/-- The framing shows how many bytes there are. -/
theorem not_oneText_of_isFramed {p : ConversionPlan} (h : p.IsFramed) :
    ¬OneText fun bytes => p.apply (some bytes) := by
  have hsequence {α : Type} {f : Bytes → ℤ × Bytes → Except CdmError α} :
      ¬OneText fun bytes => takeI32 bytes >>= f bytes :=
    mt OneText.of_bind Builtin.not_oneText_takeI32
  cases p with
  | list | set | map => exact mt oneText_map_iff.1 hsequence
  | tuple elements =>
    obtain ⟨plan, plans, rfl⟩ := exists_cons_of_ne_nil h
    exact not_oneText [0] [0, 0] "truncated serialised value: wanted 4 more bytes, 1 remain"
      "truncated serialised value: wanted 4 more bytes, 2 remain" rfl rfl (by decide)
  | udt fields =>
    obtain ⟨field, fields, rfl⟩ := exists_cons_of_ne_nil h
    exact not_oneText [0] [0, 0] "truncated serialised value: wanted 4 more bytes, 1 remain"
      "truncated serialised value: wanted 4 more bytes, 2 remain" rfl rfl (by decide)
  | vector element dimensions width =>
    have hlength (bytes : Bytes) (h : bytes.length ≠ dimensions * width) :
        (vector element dimensions width).apply (some bytes) = .error (conversionError
          (s!"vector of {dimensions} elements should be " ++
            s!"{dimensions * width} bytes, got {bytes.length}")) := by
      show (applyVector element.apply dimensions width bytes).map some = _
      rw [applyVector, if_pos h]
      rfl
    refine not_oneText (List.replicate (dimensions * width + 1) 0)
      (List.replicate (dimensions * width + 2) 0) _ _ (hlength _ (by simp)) (hlength _ (by simp)) ?_
    intro heq
    rw [length_replicate, length_replicate] at heq
    have hrepr : Nat.repr (dimensions * width + 1) = Nat.repr (dimensions * width + 2) := by
      simpa using heq
    exact absurd (Text.repr_inj hrepr) (by omega)
  | _ => exact h.elim

end ConversionPlan

namespace Planner

open ConversionPlan

variable {planner : Planner}

variable (planner) in
/-- A value is left as it is, or converted by a codec, or taken apart. -/
theorem planTypes_forms (a b : CqlTypeInfo) :
    (planner.planTypes a b).isIdentity = true ∨
      (∃ p q converter, a = .primitive p ∧ b = .primitive q ∧
        planner.registry.converter a b = some converter ∧
        planner.planTypes a b = .codec converter) ∨
      (∀ p, a ≠ .primitive p) ∧ (planner.planTypes a b).IsFramed := by
  have hwrap (build : ConversionPlan → ConversionPlan) (element : ConversionPlan)
      (hbuild : (build element).IsFramed) :
      (wrap build element).isIdentity = true ∨ (wrap build element).IsFramed := by
    rw [wrap]
    split_ifs
    · exact .inl rfl
    · exact .inr hbuild
  rw [planTypes.eq_def]
  split_ifs with hsame
  · exact .inl rfl
  split
  case h_1 =>
    exact (hwrap list _ trivial).imp id fun h => .inr ⟨by rintro p ⟨⟩, h⟩
  case h_2 =>
    exact (hwrap set _ trivial).imp id fun h => .inr ⟨by rintro p ⟨⟩, h⟩
  case h_3 =>
    dsimp only
    split_ifs
    · exact .inl rfl
    · exact .inr (.inr ⟨by rintro p ⟨⟩, trivial⟩)
  case h_4 =>
    split_ifs
    · exact .inl rfl
    · dsimp only
      split_ifs with hall
      · exact .inl rfl
      · refine .inr (.inr ⟨by rintro p ⟨⟩, ?_⟩)
        intro hnil
        rw [hnil] at hall
        exact hall rfl
  case h_5 =>
    split_ifs
    · exact .inl rfl
    · split
      · exact .inl rfl
      · next fields _ =>
        split_ifs with hplace
        · exact .inl rfl
        · refine .inr (.inr ⟨by rintro p ⟨⟩, ?_⟩)
          rintro rfl
          exact hplace rfl
  case h_6 =>
    split_ifs
    · exact .inl rfl
    · dsimp only
      split_ifs
      · exact .inl rfl
      · split
        · exact .inr (.inr ⟨by rintro p ⟨⟩, trivial⟩)
        · exact .inl rfl
  case h_7 =>
    split
    · next converter hconverter =>
      exact .inr (.inl ⟨_, _, converter, rfl, rfl, hconverter, rfl⟩)
    · exact .inl rfl
  case h_8 => exact .inl rfl

/-- What the conversion between two types fails on is not to be told from its errors: the value is
left as it is, or a codec converts it that shows nothing of it. -/
def Reticent (planner : Planner) (enabled : List Codecset) (a b : CqlTypeInfo) : Prop :=
  (planner.planTypes a b).isIdentity = true ∨
    ∃ codec p q, CodecRegistry.IsWanted enabled codec ∧ a = .primitive p ∧ b = .primitive q ∧
      codec.isReticent p q = true

variable {F : Type} [F64 F] [LiteralParsers] [CodecCrates] [ChronoUtc]
  {settings : Option TimestampFormat} {enabled : List Codecset}

/-- Over the built-in codecs, a conversion fails with one text exactly when it is reticent.  Every
other one shows a length, or where a text goes wrong. -/
theorem oneText_apply_iff
    (h : CodecRegistry.withBuiltins F enabled settings = .ok planner.registry) (a b : CqlTypeInfo) :
    (OneText fun bytes => (planner.planTypes a b).apply (some bytes)) ↔
      planner.Reticent enabled a b := by
  obtain hidentity | ⟨p, q, converter, rfl, rfl, hconverter, hplan⟩ | ⟨hprimitive, hframed⟩ :=
    planTypes_forms planner a b
  · refine iff_of_true (.of_ne_error ?_) (.inl hidentity)
    intro bytes e he
    rw [apply_of_isIdentity hidentity] at he
    cases he
  · rw [Reticent, hplan]
    constructor
    · intro hone
      obtain ⟨codec, hwanted, hconverts⟩ := (CodecRegistry.converter_eq_some_iff h).1 hconverter
      exact .inr ⟨codec, p, q, hwanted, rfl, rfl, (Codecset.oneText_iff hconverts).1 hone⟩
    · rintro (hidentity | ⟨codec, p', q', hwanted, ⟨⟩, ⟨⟩, hreticent⟩)
      · cases hidentity
      · obtain ⟨other, hconverts⟩ := Codecset.exists_converts F settings hreticent
        -- the types have no other converter
        have hother := (CodecRegistry.converter_eq_some_iff h).2 ⟨codec, hwanted, hconverts⟩
        rw [hconverter] at hother
        cases hother
        exact (Codecset.oneText_iff hconverts).2 hreticent
  · refine iff_of_false (not_oneText_of_isFramed hframed) ?_
    rintro (hidentity | ⟨_, p, _, _, rfl, _⟩)
    · revert hidentity hframed
      cases planner.planTypes a b <;> simp [isIdentity, IsFramed]
    · exact hprimitive p rfl

end Planner

end Cdm
