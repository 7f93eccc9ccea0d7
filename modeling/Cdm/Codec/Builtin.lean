import Cdm.Codec.Plan
import Cdm.Feature.Literal

/-!
# Built-in codecs for text

The codecs that read an `int` or a `bigint` from text, with the texts they fail with, and those
between text and blobs.  The other codecs stay a parameter of the planner.
-/

namespace Cdm

namespace Utf8

/-- Whether `second` may follow the first byte of a sequence of three or four bytes. -/
def secondAllowed (first second : UInt8) : Bool :=
  if first = 0xE0 then 0xA0 ≤ second && second ≤ 0xBF
  else if first = 0xED then 0x80 ≤ second && second ≤ 0x9F
  else if first = 0xF0 then 0x90 ≤ second && second ≤ 0xBF
  else if first = 0xF4 then 0x80 ≤ second && second ≤ 0x8F
  else 0x80 ≤ second && second ≤ 0xBF

/-- The length of the sequence a byte begins, or 0 if it begins none. -/
def width (first : UInt8) : ℕ :=
  if first < 0x80 then 1
  else if 0xC2 ≤ first && first ≤ 0xDF then 2
  else if 0xE0 ≤ first && first ≤ 0xEF then 3
  else if 0xF0 ≤ first && first ≤ 0xF4 then 4
  else 0

/-- How many bytes of the sequence that begins here are not UTF-8: `none` when they are, and
`some none` when the text ends within the sequence. -/
def sequenceError (first : UInt8) (rest : Bytes) : Option (Option ℕ) :=
  let continues (byte : UInt8) : Bool := 0x80 ≤ byte && byte ≤ 0xBF
  match width first, rest with
  | 0, _ => some (some 1)
  | 1, _ => none
  | _, [] => some none
  | n, second :: rest =>
    if !secondAllowed first second then some (some 1)
    else if n = 2 then none
    else
      match rest with
      | [] => some none
      | third :: rest =>
        if !continues third then some (some 2)
        else if n = 3 then none
        else
          match rest with
          | [] => some none
          | fourth :: _ => if continues fourth then none else some (some 3)

/-- `str::from_utf8`: where the bytes stop being UTF-8, and how.  Every sequence is at least one byte
long, so the number of bytes bounds the number of sequences. -/
def error (index : ℕ) : ℕ → Bytes → Option String
  | 0, _ | _, [] => none
  | fuel + 1, first :: rest =>
    match sequenceError first rest with
    | none => error (index + width first) fuel (rest.drop (width first - 1))
    | some none => some s!"incomplete utf-8 byte sequence from index {index}"
    | some (some n) => some s!"invalid utf-8 sequence of {n} bytes from index {index}"

end Utf8

namespace Builtin

open Wire

/-- Reads text, rejecting invalid UTF-8. -/
def readText (bytes : Bytes) : Except CdmError String :=
  match String.fromUTF8? ⟨bytes.toArray⟩ with
  | some text => .ok text
  | none => .error (conversionError ("value is not valid UTF-8 text: " ++
      (Utf8.error 0 bytes.length bytes).getD ""))

/-- Reads a machine integer of `width` bytes from text, without trimming it. -/
def textToInteger (width : ℕ) (what : String) : Converter
  | none => .ok none
  | some bytes => do
    let text ← readText bytes
    match Literal.encodeInt width text with
    | .ok value => return some value
    | .error e => throw (conversionError s!"`{text}` is not {what}: {e}")

def textToInt : Converter := textToInteger 4 "an int"

def textToBigint : Converter := textToInteger 8 "a bigint"

/-- Text and blob share a byte representation, so one way there is nothing to convert. -/
def identityBytes : Converter
  | none => .ok none
  | some bytes => .ok (some bytes)

/-- The other way, what is not UTF-8 is rejected. -/
def blobToText : Converter
  | none => .ok none
  | some bytes => do
    let _ ← readText bytes
    return some bytes

end Builtin

end Cdm
