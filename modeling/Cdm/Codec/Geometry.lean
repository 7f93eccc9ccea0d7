import Cdm.Codec.Builtin
import Cdm.Lib.Words

/-!
# Geometry

The geometries of DSE: points, line strings and polygons, in well-known binary and in well-known
text, and the conversions between the two.

A `double` is a parameter: how it is stored in eight bytes, how it is written as text, and which
texts are read as one.
-/

namespace Cdm

/-- `f64`, as far as geometries use it. -/
class F64 (F : Type) where
  /-- `f64::from_be_bytes`. -/
  fromBeBytes : Bytes → F
  /-- `f64::to_be_bytes`. -/
  toBeBytes : F → Bytes
  /-- What `{}` writes. -/
  display : F → List Char
  /-- `str::parse`. -/
  parse : List Char → Option F

/-- A planar geometry. -/
inductive Geometry (F : Type)
  | point (x y : F)
  /-- An ordered sequence of coordinates. -/
  | lineString (points : List (F × F))
  /-- An exterior ring followed by zero or more interior rings. -/
  | polygon (rings : List (List (F × F)))
  deriving DecidableEq

namespace Geometry

open Wire

variable {F : Type} [F64 F]

/-! ### Well-known binary -/

def wkbLittleEndian : UInt8 := 1

def wkbPoint : ℕ := 1

def wkbLineString : ℕ := 2

def wkbPolygon : ℕ := 3

/-- What is left of a buffer, and its byte order. -/
structure Cursor where
  rest : Bytes
  littleEndian : Bool
  deriving DecidableEq

namespace Cursor

def new : Bytes → Except CdmError Cursor
  | [] => .error (conversionError "empty well-known binary value")
  | flag :: rest => .ok ⟨rest, flag = wkbLittleEndian⟩

def take (count : ℕ) (cursor : Cursor) : Except CdmError (Bytes × Cursor) :=
  if count ≤ cursor.rest.length then
    .ok (cursor.rest.take count, { cursor with rest := cursor.rest.drop count })
  else .error (conversionError "truncated well-known binary value")

/-- The next bytes, the most significant one first. -/
def ordered (count : ℕ) (cursor : Cursor) : Except CdmError (Bytes × Cursor) := do
  let (raw, cursor) ← cursor.take count
  return (if cursor.littleEndian then raw.reverse else raw, cursor)

def u32 (cursor : Cursor) : Except CdmError (ℕ × Cursor) := do
  let (raw, cursor) ← cursor.ordered 4
  return (BigEndian.toNat raw, cursor)

def f64 (cursor : Cursor) : Except CdmError (F × Cursor) := do
  let (raw, cursor) ← cursor.ordered 8
  return (F64.fromBeBytes raw, cursor)

def point (cursor : Cursor) : Except CdmError ((F × F) × Cursor) := do
  let (x, cursor) ← cursor.f64
  let (y, cursor) ← cursor.f64
  return ((x, y), cursor)

/-- Reads a number of things one after the other. -/
def many {α : Type} (read : Cursor → Except CdmError (α × Cursor)) :
    ℕ → Cursor → Except CdmError (List α × Cursor)
  | 0, cursor => .ok ([], cursor)
  | count + 1, cursor => do
    let (first, cursor) ← read cursor
    let (others, cursor) ← many read count cursor
    return (first :: others, cursor)

def ring (cursor : Cursor) : Except CdmError (List (F × F) × Cursor) := do
  let (count, cursor) ← cursor.u32
  cursor.many point count

end Cursor

/-- Decodes well-known binary. -/
def fromWkb (bytes : Bytes) : Except CdmError (Geometry F) := do
  let cursor ← Cursor.new bytes
  let (kind, cursor) ← cursor.u32
  if kind = wkbPoint then
    let ((x, y), _) ← cursor.point
    return .point x y
  else if kind = wkbLineString then
    let (points, _) ← cursor.ring
    return .lineString points
  else if kind = wkbPolygon then
    let (rings, cursor) ← cursor.u32
    let (out, _) ← cursor.many Cursor.ring rings
    return .polygon out
  else throw (conversionError s!"unknown well-known-binary geometry type {kind}")

/-- A `u32`, the least significant byte first. -/
def pushU32 (value : ℕ) : Bytes := (BigEndian.ofNat 4 value).reverse

def pushPoint (point : F × F) : Bytes :=
  (F64.toBeBytes point.1).reverse ++ (F64.toBeBytes point.2).reverse

/-- A number of elements, which fits a `u32`. -/
def pushCount (count : ℕ) (message : String) : Except CdmError Bytes :=
  if count < 2 ^ 32 then .ok (pushU32 count) else .error (conversionError message)

def pushRing (ring : List (F × F)) : Except CdmError Bytes := do
  let count ← pushCount ring.length "geometry has too many points"
  return count ++ ring.flatMap pushPoint

/-- Encodes well-known binary, the least significant bytes first. -/
def toWkb : Geometry F → Except CdmError Bytes
  | point x y => .ok (wkbLittleEndian :: (pushU32 wkbPoint ++ pushPoint (x, y)))
  | lineString points => do
    let ring ← pushRing points
    return wkbLittleEndian :: (pushU32 wkbLineString ++ ring)
  | polygon rings => do
    let count ← pushCount rings.length "polygon has too many rings"
    let out ← rings.mapM pushRing
    return wkbLittleEndian :: (pushU32 wkbPolygon ++ (count ++ out.flatten))

/-! ### Well-known text -/

def pairText (pair : F × F) : List Char := F64.display pair.1 ++ ' ' :: F64.display pair.2

def points (ring : List (F × F)) : List Char := [',', ' '].intercalate (ring.map pairText)

/-- Renders well-known text. -/
def toWkt : Geometry F → List Char
  | point x y => "POINT (".toList ++ pairText (x, y) ++ [')']
  | lineString ring => "LINESTRING (".toList ++ points ring ++ [')']
  | polygon rings =>
    "POLYGON (".toList ++ [',', ' '].intercalate (rings.map fun ring => '(' :: (points ring ++ [')'])) ++
      [')']

def parseCoordinate (text : List Char) : Except CdmError F :=
  match F64.parse text with
  | some value => .ok value
  | none => .error (conversionError s!"`{String.ofList text}` is not a coordinate")

def parsePair (pair : List Char) : Except CdmError (F × F) :=
  match Text.words pair with
  | [] => .error (conversionError "missing x")
  | [_] => .error (conversionError "missing y")
  | x :: y :: _ => do
    let x ← parseCoordinate x
    let y ← parseCoordinate y
    return (x, y)

def parsePoints (body : List Char) : Except CdmError (List (F × F)) :=
  (Text.splitOn ',' body).mapM parsePair

/-- The rings of a polygon: what stands between an opening parenthesis and the next closing one,
whatever stands in between.  The first argument is what has been read of a ring, backwards. -/
def parseRings (text : List Char) : Option (List Char) → List Char →
    Except CdmError (List (List (F × F)))
  | none, [] => .ok []
  | some _, [] => .error (conversionError s!"`{String.ofList text}` has an unclosed ring")
  | none, c :: cs => if c = '(' then parseRings text (some []) cs else parseRings text none cs
  | some ring, c :: cs =>
    if c = ')' then do
      let first ← parsePoints ring.reverse
      let others ← parseRings text none cs
      return first :: others
    else parseRings text (some (c :: ring)) cs

/-- A text without the white space around it, nor quotes. -/
def unwrap (text : List Char) : List Char :=
  Text.trim (Text.trimMatches Text.singleQuote (Text.trim text))

/-- What stands in the parentheses. -/
def parseBody (text : List Char) : Except CdmError (List Char) :=
  match Text.splitOnce '(' (unwrap text) with
  | none => .error (conversionError s!"`{String.ofList text}` is not well-known text")
  | some (_, body) =>
    if Text.endsWith ')' body then .ok body.dropLast
    else .error (conversionError s!"`{String.ofList text}` is not well-known text")

/-- Parses well-known text. -/
def fromWkt (text : List Char) : Except CdmError (Geometry F) := do
  let upper := Text.toUpper (unwrap text)
  let body ← parseBody text
  if "POINT".toList <+: upper then
    let coords ← parsePoints body
    match coords with
    | [] => throw (conversionError "POINT requires one coordinate")
    | first :: _ => return .point first.1 first.2
  else if "LINESTRING".toList <+: upper then
    let ring ← parsePoints body
    return .lineString ring
  else if "POLYGON".toList <+: upper then
    let rings ← parseRings text none (Text.trim body)
    match rings with
    | [] => throw (conversionError "POLYGON requires at least one ring")
    | _ => return .polygon rings
  else throw (conversionError
    s!"`{String.ofList text}` is not a POINT, LINESTRING or POLYGON literal")

end Geometry

namespace Builtin

variable (F : Type) [F64 F]

/-- A converter of values, which passes null on. -/
def fnConverter (convert : Bytes → Except CdmError Bytes) : Converter
  | none => .ok none
  | some bytes => (convert bytes).map some

def wkbToWkt (bytes : Bytes) : Except CdmError Bytes := do
  let geometry : Geometry F ← Geometry.fromWkb bytes
  return (String.ofList geometry.toWkt).toUTF8.data.toList

/-- The inverse: well-known text to well-known binary. -/
def wktToWkb (bytes : Bytes) : Except CdmError Bytes := do
  let text ← readText bytes
  let geometry : Geometry F ← Geometry.fromWkt text.toList
  geometry.toWkb

def textToPoint : Converter := fnConverter (wktToWkb F)

def textToLineString : Converter := fnConverter (wktToWkb F)

def textToPolygon : Converter := fnConverter (wktToWkb F)

def pointToText : Converter := fnConverter (wkbToWkt F)

def lineStringToText : Converter := fnConverter (wkbToWkt F)

def polygonToText : Converter := fnConverter (wkbToWkt F)

end Builtin

end Cdm
