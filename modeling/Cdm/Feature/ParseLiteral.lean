import Cdm.Feature.Literal
import Cdm.Codec.Wire

/-!
# CQL literals

A literal is parsed for the type of the column it is written to: a string-like one is quoted, the
elements of a collection are found by splitting at the commas that stand neither in brackets nor in
quotes, and everything else is a scalar, with or without quotes.

The source adds the bias of a date in an `i64`.  Where the sum does not fit, a build with overflow
checks panics, which is an outcome of its own here; one without them wraps, and the date is out of
range.  Every other index and length of the source is checked or cannot overflow: a text is taken
apart with `strip_prefix`, `get` and `chars`, and `len() - 1` follows `len() >= 2`.
-/

namespace Cdm

open Text

namespace Literal

/-! ### Scalars -/

variable [LiteralParsers]

/-- Serializes a scalar of a primitive type; `none` for a type that has no literals. -/
def encodePrimitiveChecked (text : String) (kind : Primitive) :
    Option (Except (Halt String) Bytes) :=
  if kind = .date then some ((parseDateChecked text).map (BigEndian.ofNat 4))
  else (encodePrimitive text kind).map (Except.mapError .error)

/-- Serializes an unquoted scalar; `literal` is the text its error names. -/
def encodeScalarChecked (value : String) (cqlType : CqlTypeInfo) (literal : String) :
    Except (Halt CdmError) RawCell :=
  let encoded := match cqlType with
    | .primitive kind => encodePrimitiveChecked value kind
    | _ => none
  match encoded with
  | some result => (result.mapError (Halt.map (invalid literal cqlType))).map some
  | none => .error (.error (invalid literal cqlType
      "cdm-rs cannot express a constant of this type; supply it from the origin instead"))

/-! ### Quotes -/

/-- Whether a text is a single-quoted string literal. -/
def isQuoted (text : List Char) : Bool :=
  2 ≤ utf8Len text && (stripPrefix [singleQuote] text).isSome &&
    endsWith singleQuote text

/-- Removes the surrounding quotes, and undoubles those between them. -/
def unquote (text : List Char) : Option (List Char) :=
  if isQuoted text then
    some (replace [singleQuote, singleQuote] [singleQuote] text.tail.dropLast)
  else none

/-! ### Splitting -/

/-- Puts a character in front of the first piece. -/
def push (c : Char) : List (List Char) → List (List Char)
  | [] => [[c]]
  | piece :: pieces => (c :: piece) :: pieces

def isOpening (c : Char) : Bool := c == '[' || c == '\x7b' || c == '(' || c == '<'

def isClosing (c : Char) : Bool := c == ']' || c == '\x7d' || c == ')' || c == '>'

/-- The pieces between the separators that stand neither in brackets nor in quotes, inside `depth`
brackets. -/
def splitFrom (separator : Char) : ℕ → Bool → List Char → List (List Char)
  | _, _, [] => [[]]
  | depth, quoted, c :: cs =>
    if c = singleQuote then push c (splitFrom separator depth (!quoted) cs)
    else if isOpening c && !quoted then push c (splitFrom separator (depth + 1) quoted cs)
    else if isClosing c && !quoted then push c (splitFrom separator (depth - 1) quoted cs)
    else if c = separator ∧ depth = 0 ∧ quoted = false then
      [] :: splitFrom separator depth quoted cs
    else push c (splitFrom separator depth quoted cs)

/-- Splits at a separator, ignoring those nested inside brackets or quotes. -/
def splitTopLevel (text : List Char) (separator : Char) : List (List Char) :=
  (splitFrom separator 0 false text).map trim

/-! ### Collections -/

/-- The result of a parser. -/
abbrev Parsed := Except (Halt CdmError) RawCell

/-- What stands between the brackets of a collection. -/
def bracketed (opening closing : Char) (cqlType : CqlTypeInfo) (literal text : List Char) :
    Except (Halt CdmError) (List Char) :=
  match stripPrefix [opening] text with
  | some rest =>
    if endsWith closing rest then .ok rest.dropLast
    else .error (.error (invalid (String.ofList literal) cqlType s!"expected `{opening}…{closing}`"))
  | none =>
    .error (.error (invalid (String.ofList literal) cqlType s!"expected `{opening}…{closing}`"))

def writeCount (count : ℕ) (cqlType : CqlTypeInfo) (literal : List Char) :
    Except (Halt CdmError) Bytes :=
  if count < 2 ^ 31 then .ok (Wire.writeI32 count)
  else .error (.error (invalid (String.ofList literal) cqlType "collection has too many elements"))

def writeElement (cell : RawCell) : Except (Halt CdmError) Bytes :=
  (Wire.writeElement cell).mapError fun _ =>
    .error ⟨.typeConversion, "serialised collection element exceeds 2 GiB", {}⟩

/-- One element, parsed and framed. -/
def parseElement (parse : List Char → Parsed) (element : List Char) :
    Except (Halt CdmError) Bytes := do
  let cell ← parse element
  writeElement cell

/-- The elements of a list or a set. -/
def parseElements (parse : List Char → Parsed) : List (List Char) → Except (Halt CdmError) Bytes
  | [] => .ok []
  | element :: elements => do
    let bytes ← parseElement parse element
    let rest ← parseElements parse elements
    return bytes ++ rest

/-- The pieces that are not empty. -/
def filled (pieces : List (List Char)) : List (List Char) :=
  pieces.filter fun piece => !piece.isEmpty

/-- A list or a set.  Empty pieces are passed over. -/
def parseSequence (parse : List Char → Parsed) (opening closing : Char) (cqlType : CqlTypeInfo)
    (literal text : List Char) : Parsed := do
  let inner ← bracketed opening closing cqlType literal text
  let elements := filled (splitTopLevel inner ',')
  let count ← writeCount elements.length cqlType literal
  let bytes ← parseElements parse elements
  return some (count ++ bytes)

/-- The entries of a map. -/
def parseEntries (parseKey parseValue : List Char → Parsed) (cqlType : CqlTypeInfo)
    (literal : List Char) : List (List Char) → Except (Halt CdmError) Bytes
  | [] => .ok []
  | element :: elements =>
    match splitTopLevel element ':' with
    | [entryKey, entryValue] => do
      let key ← parseElement parseKey entryKey
      let value ← parseElement parseValue entryValue
      let rest ← parseEntries parseKey parseValue cqlType literal elements
      return key ++ value ++ rest
    | _ => .error (.error (invalid (String.ofList literal) cqlType "expected `key: value` entries"))

/-- The components of a tuple. -/
def parseComponents : List (List Char → Parsed) → List (List Char) → Except (Halt CdmError) Bytes
  | parse :: parses, element :: elements => do
    let bytes ← parseElement parse element
    let rest ← parseComponents parses elements
    return bytes ++ rest
  | _, _ => .ok []

/-! ### Literals -/

/-- A scalar literal.  The string-like types require quotes; every other type accepts its bare and
its quoted form. -/
def parseScalar (cqlType : CqlTypeInfo) (literal text : List Char) : Parsed :=
  if cqlType = .primitive .text ∨ cqlType = .primitive .ascii ∨ cqlType = .primitive .inet then
    match unquote text with
    | some value => encodeScalarChecked (String.ofList value) cqlType (String.ofList literal)
    | none => .error (.error (invalid (String.ofList literal) cqlType
        "a string literal must be enclosed in single quotes"))
  else encodeScalarChecked (String.ofList ((unquote text).getD text)) cqlType (String.ofList literal)

/-- Whether a text is the null literal, in any case. -/
def IsNull (text : List Char) : Prop := toLower text = ['n', 'u', 'l', 'l']

instance (text : List Char) : Decidable (IsNull text) :=
  inferInstanceAs (Decidable (toLower text = ['n', 'u', 'l', 'l']))

/-- The null literal, or another one. -/
def orNull (literal : List Char) (parse : List Char → Parsed) : Parsed :=
  if IsNull (trim literal) then .ok none else parse (trim literal)

mutual

/-- Parses a literal into its serialized form. -/
def parseLiteral : CqlTypeInfo → List Char → Parsed
  | .list element frozen, literal => orNull literal
    (parseSequence (parseLiteral element) '[' ']' (.list element frozen) literal)
  | .set element frozen, literal => orNull literal
    (parseSequence (parseLiteral element) '\x7b' '\x7d' (.set element frozen) literal)
  | .map key value frozen, literal => orNull literal fun text => do
    let inner ← bracketed '\x7b' '\x7d' (.map key value frozen) literal text
    let elements := splitTopLevel inner ','
    let count ← writeCount elements.length (.map key value frozen) literal
    let bytes ← parseEntries (parseLiteral key) (parseLiteral value) (.map key value frozen) literal
      elements
    return some (count ++ bytes)
  | .tuple types, literal => orNull literal fun text => do
    let inner ← bracketed '(' ')' (.tuple types) literal text
    let elements := splitTopLevel inner ','
    if elements.length = types.length then
      (parseComponents (parseLiterals types) elements).map some
    else .error (.error (invalid (String.ofList literal) (.tuple types)
      s!"expected {types.length} components, got {elements.length}"))
  | .primitive kind, literal => orNull literal (parseScalar (.primitive kind) literal)
  | .udt keyspace name fields frozen, literal =>
    orNull literal (parseScalar (.udt keyspace name fields frozen) literal)
  | .vector element dimensions, literal =>
    orNull literal (parseScalar (.vector element dimensions) literal)
  | .custom name, literal => orNull literal (parseScalar (.custom name) literal)

/-- The parsers of the components of a tuple. -/
def parseLiterals : List CqlTypeInfo → List (List Char → Parsed)
  | [] => []
  | cqlType :: types => parseLiteral cqlType :: parseLiterals types

end

end Literal

/-! ### JSON values -/

namespace JsonValue

variable [LiteralParsers] [SerdeJson]

/-- An object or an array, which only a text column can hold. -/
def encodeCompoundChecked (value : JsonValue) (cqlType : CqlTypeInfo) :
    Except (Halt CdmError) RawCell :=
  let rendered := SerdeJson.render value
  if cqlType = .primitive .text ∨ cqlType = .primitive .ascii then
    Literal.encodeScalarChecked rendered cqlType rendered
  else .error (.error (Literal.invalid rendered cqlType
    "a JSON object or array can only be extracted into a text column"))

/-- Serializes a JSON value into a target column type. -/
def encodeChecked (value : JsonValue) (cqlType : CqlTypeInfo) : Except (Halt CdmError) RawCell :=
  match value with
  | null => .ok none
  | string text | number text => Literal.encodeScalarChecked text cqlType text
  | bool flag =>
    let rendered := if flag then "true" else "false"
    Literal.encodeScalarChecked rendered cqlType rendered
  | array elements => encodeCompoundChecked (array elements) cqlType
  | object fields => encodeCompoundChecked (object fields) cqlType

end JsonValue

end Cdm
