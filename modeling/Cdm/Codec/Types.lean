import Cdm.Core.Error
import Cdm.Lib.Text

/-!
# The CQL type taxonomy

`CqlTypeInfo` is the shape of a CQL type as `system_schema.columns.type` spells it, parsed into a
tree.  Frozen-ness is recorded but is no part of type identity: `sameType` ignores it, and `=` does
not.

The types without element types are gathered in `Primitive`: the twenty CQL primitives, and the
four custom types of DSE, which the planner treats as primitives too.
-/

namespace Cdm

/-- A type with no element types to recurse into. -/
inductive Primitive
  | ascii
  | bigInt
  | blob
  | boolean
  | counter
  | date
  | decimal
  | double
  | duration
  | float
  | inet
  | int
  | smallInt
  | text
  | time
  | timestamp
  | timeUuid
  | tinyInt
  | uuid
  | varInt
  | point
  | lineString
  | polygon
  | dateRange
  deriving DecidableEq, Repr

namespace Primitive

/-- The name as CQL spells it. -/
def asStr : Primitive → String
  | ascii => "ascii"
  | bigInt => "bigint"
  | blob => "blob"
  | boolean => "boolean"
  | counter => "counter"
  | date => "date"
  | decimal => "decimal"
  | double => "double"
  | duration => "duration"
  | float => "float"
  | inet => "inet"
  | int => "int"
  | smallInt => "smallint"
  | text => "text"
  | time => "time"
  | timestamp => "timestamp"
  | timeUuid => "timeuuid"
  | tinyInt => "tinyint"
  | uuid => "uuid"
  | varInt => "varint"
  | point => "PointType"
  | lineString => "LineStringType"
  | polygon => "PolygonType"
  | dateRange => "DateRangeType"

/-- The fixed serialized width of a value, when the type has one. -/
def fixedWidth : Primitive → Option ℕ
  | boolean | tinyInt => some 1
  | smallInt => some 2
  | int | date | float => some 4
  | bigInt | counter | double | time | timestamp => some 8
  | uuid | timeUuid => some 16
  | _ => none

end Primitive

/-- A CQL type. -/
inductive CqlTypeInfo
  | primitive (kind : Primitive)
  | list (element : CqlTypeInfo) (frozen : Bool)
  | set (element : CqlTypeInfo) (frozen : Bool)
  | map (key value : CqlTypeInfo) (frozen : Bool)
  /-- Tuples are always frozen in CQL. -/
  | tuple (elements : List CqlTypeInfo)
  /-- A user-defined type.  The fields are empty when the type was parsed from a bare name and
  nothing supplied its definition. -/
  | udt (keyspace : Option String) (name : String) (fields : List (String × CqlTypeInfo))
      (frozen : Bool)
  /-- A collection with a fixed number of elements, which is part of the type. -/
  | vector (element : CqlTypeInfo) (dimensions : ℕ)
  /-- Anything the schema reports that is not modelled, carried verbatim. -/
  | custom (name : String)

namespace CqlTypeInfo

/-! ### Equality -/

mutual

/-- Structural equality, frozen-ness included. -/
def beq : CqlTypeInfo → CqlTypeInfo → Bool
  | primitive a, primitive b => a = b
  | list a fa, list b fb => beq a b && fa == fb
  | set a fa, set b fb => beq a b && fa == fb
  | map ka va fa, map kb vb fb => beq ka kb && beq va vb && fa == fb
  | tuple as, tuple bs => beqList as bs
  | udt ka na as fa, udt kb nb bs fb => ka = kb && na = nb && beqFields as bs && fa == fb
  | vector a da, vector b db => beq a b && da == db
  | custom a, custom b => a = b
  | _, _ => false

def beqList : List CqlTypeInfo → List CqlTypeInfo → Bool
  | [], [] => true
  | a :: as, b :: bs => beq a b && beqList as bs
  | _, _ => false

def beqFields : List (String × CqlTypeInfo) → List (String × CqlTypeInfo) → Bool
  | [], [] => true
  | (na, a) :: as, (nb, b) :: bs => na = nb && beq a b && beqFields as bs
  | _, _ => false

end

mutual

theorem beq_iff (a b : CqlTypeInfo) : beq a b = true ↔ a = b := by
  cases a <;> cases b <;> simp [beq, beq_iff, beqList_iff, beqFields_iff, and_assoc]

theorem beqList_iff (as bs : List CqlTypeInfo) : beqList as bs = true ↔ as = bs := by
  cases as <;> cases bs <;> simp [beqList, beq_iff, beqList_iff]

theorem beqFields_iff (as bs : List (String × CqlTypeInfo)) :
    beqFields as bs = true ↔ as = bs := by
  cases as with
  | nil => cases bs <;> simp [beqFields]
  | cons a as =>
    cases bs with
    | nil => simp [beqFields]
    | cons b bs =>
      obtain ⟨na, a⟩ := a
      obtain ⟨nb, b⟩ := b
      simp [beqFields, beq_iff, beqFields_iff]

end

instance : DecidableEq CqlTypeInfo := fun a b => decidable_of_iff _ (beq_iff a b)

mutual

/-- Structural equality ignoring frozen-ness, which is the comparison the planner uses. -/
def sameType : CqlTypeInfo → CqlTypeInfo → Bool
  | list a _, list b _ => sameType a b
  | set a _, set b _ => sameType a b
  | map ka va _, map kb vb _ => sameType ka kb && sameType va vb
  | tuple as, tuple bs => sameTypes as bs
  | udt _ na as _, udt _ nb bs _ => na == nb && sameFields as bs
  | vector a da, vector b db => da == db && sameType a b
  | primitive a, primitive b => a = b
  | custom a, custom b => a = b
  | _, _ => false

def sameTypes : List CqlTypeInfo → List CqlTypeInfo → Bool
  | [], [] => true
  | a :: as, b :: bs => sameType a b && sameTypes as bs
  | _, _ => false

def sameFields : List (String × CqlTypeInfo) → List (String × CqlTypeInfo) → Bool
  | [], [] => true
  | (na, a) :: as, (nb, b) :: bs => na == nb && sameType a b && sameFields as bs
  | _, _ => false

end

/-! ### Shape -/

/-- Whether the type has no element types to recurse into. -/
def isPrimitive : CqlTypeInfo → Bool
  | primitive _ => true
  | _ => false

/-- The fixed serialized width of a value of this type, when it has one. -/
def fixedWidth : CqlTypeInfo → Option ℕ
  | primitive kind => kind.fixedWidth
  | _ => none

/-! ### Rendering -/

/-- A type written with its keyword, its arguments and, if need be, `frozen<…>` around it. -/
def wrapped (frozen : Bool) (keyword : String) (args : List String) : String :=
  let inner := keyword ++ "<" ++ ", ".intercalate args ++ ">"
  if frozen then "frozen<" ++ inner ++ ">" else inner

mutual

/-- The type as CQL spells it. -/
def render : CqlTypeInfo → String
  | primitive kind => kind.asStr
  | list element frozen => wrapped frozen "list" [render element]
  | set element frozen => wrapped frozen "set" [render element]
  | map key value frozen => wrapped frozen "map" [render key, render value]
  | tuple elements => wrapped false "tuple" (renderAll elements)
  | udt keyspace name _ frozen =>
    let qualified := (keyspace.elim "" fun ks => ks ++ ".") ++ name
    if frozen then "frozen<" ++ qualified ++ ">" else qualified
  | vector element dimensions => "vector<" ++ render element ++ ", " ++ toString dimensions ++ ">"
  | custom name => name

def renderAll : List CqlTypeInfo → List String
  | [] => []
  | t :: ts => render t :: renderAll ts

end

instance : ToString CqlTypeInfo := ⟨render⟩

end CqlTypeInfo

/-! ### Parsing -/

/-- `char::is_alphanumeric`.  Which characters outside ASCII it holds of is a matter of the Unicode
version the standard library was built with. -/
class AlphanumericTable where
  isAlphanumeric : Char → Bool
  of_ascii : ∀ c : Char, c.toNat < 128 → isAlphanumeric c = c.isAlphanum

/-- The table that knows ASCII only. -/
@[reducible] def AlphanumericTable.ascii : AlphanumericTable := ⟨Char.isAlphanum, fun _ _ => rfl⟩

namespace CqlTypeInfo

/-- Supplies UDT definitions: the fields of the named UDT, or `none` if the name is not one in
scope. -/
abbrev UdtResolver := Option String → String → Option (List (String × CqlTypeInfo))

/-- A parser's error: the offset is where the rest of the text starts. -/
def syntaxError (text rest : List Char) (message : String) : CdmError :=
  ⟨.schemaMismatch,
    "cannot parse CQL type `" ++ String.ofList text ++ "` at offset " ++
      toString (Text.utf8Len text - Text.utf8Len rest) ++ ": " ++ message, {}⟩

def skipWhitespace (rest : List Char) : List Char := rest.dropWhile Text.isWhitespace

/-- Consumes one character, after white space. -/
def eat (text : List Char) (expected : Char) (rest : List Char) : Except CdmError (List Char) :=
  match skipWhitespace rest with
  | [] => .error (syntaxError text [] ("expected `" ++ expected.toString ++ "`"))
  | c :: cs =>
    if c = expected then .ok cs
    else .error (syntaxError text (c :: cs) ("expected `" ++ expected.toString ++ "`"))

/-- The name up to the closing quote, and what follows the quote. -/
def quotedName (text : List Char) (quote : Char) (message : String) (rest : List Char) :
    Except CdmError (List Char × List Char) :=
  match rest.dropWhile (· ≠ quote) with
  | [] => .error (syntaxError text rest message)
  | _ :: after => .ok (rest.takeWhile (· ≠ quote), after)

/-- The number of elements of a vector, a `usize`. -/
def dimensions (text rest : List Char) : Except CdmError (ℕ × List Char) :=
  let rest := skipWhitespace rest
  match Text.parseDigits (rest.takeWhile Char.isDigit) with
  | none => .error (syntaxError text rest "expected a vector dimension count")
  | some n =>
    if n < 2 ^ 64 then .ok (n, rest.dropWhile Char.isDigit)
    else .error (syntaxError text rest "expected a vector dimension count")

/-- The primitive of a lower-case name; `varchar` is an alias of `text`. -/
def primitiveNamed (lower : String) : Option Primitive :=
  [("ascii", .ascii), ("bigint", .bigInt), ("blob", .blob), ("boolean", .boolean),
    ("counter", .counter), ("date", .date), ("decimal", .decimal), ("double", .double),
    ("duration", .duration), ("float", .float), ("inet", .inet), ("int", .int),
    ("smallint", .smallInt), ("text", .text), ("varchar", .text), ("time", .time),
    ("timestamp", .timestamp), ("timeuuid", .timeUuid), ("tinyint", .tinyInt), ("uuid", .uuid),
    ("varint", Primitive.varInt)].lookup lower

/-- The fully qualified names DSE reports for its custom types, and the short forms. -/
def dseTypes : List (String × Primitive) :=
  [("org.apache.cassandra.db.marshal.PointType", .point),
    ("org.apache.cassandra.db.marshal.LineStringType", .lineString),
    ("org.apache.cassandra.db.marshal.PolygonType", .polygon),
    ("org.apache.cassandra.db.marshal.DateRangeType", .dateRange),
    ("pointtype", .point), ("linestringtype", .lineString), ("polygontype", .polygon),
    ("daterangetype", .dateRange)]

/-- A name that is no keyword: a primitive, a DSE type, or a UDT. -/
def leaf (resolver : UdtResolver) (name : List Char) (lower : String) (frozen : Bool) :
    CqlTypeInfo :=
  match primitiveNamed lower with
  | some kind => primitive kind
  | none =>
    match dseTypes.find? fun entry => entry.1 = String.ofList name || entry.1 = lower with
    | some (_, kind) => primitive kind
    | none =>
      -- a dotted name is `keyspace.type`; a Java class name would have matched above
      let (keyspace, simple) := match Text.rsplitOnce '.' name with
        | some (ks, simple) => (some (String.ofList ks), String.ofList simple)
        | none => (none, String.ofList name)
      udt keyspace simple ((resolver keyspace simple).getD []) frozen

variable [AlphanumericTable]

/-- A character of an unquoted, possibly dotted, name. -/
def isNameChar (c : Char) : Bool :=
  AlphanumericTable.isAlphanumeric c || c == '_' || c == '.' || c == '$'

/-- An identifier, possibly dotted and possibly a fully qualified Java class name.  Quoted names
are unquoted first. -/
def identifier (text rest : List Char) : Except CdmError (List Char × List Char) :=
  let rest := skipWhitespace rest
  if rest.head? = some Text.singleQuote then
    quotedName text Text.singleQuote "unterminated quoted type name" rest.tail
  else if rest.head? = some Text.doubleQuote then
    quotedName text Text.doubleQuote "unterminated quoted identifier" rest.tail
  else
    let name := rest.takeWhile isNameChar
    if name = [] then .error (syntaxError text rest "expected a type name")
    else .ok (name, rest.dropWhile isNameChar)

mutual

/-- One type expression.  Every nested expression starts further to the right, so the length of the
text bounds the depth. -/
def parseTypeInner (resolver : UdtResolver) (text : List Char) :
    ℕ → Bool → List Char → Except CdmError (CqlTypeInfo × List Char)
  | 0, _, rest => .error (syntaxError text rest "expected a type name")
  | fuel + 1, frozen, rest => do
    let (name, rest) ← identifier text rest
    let lower := String.ofList (Text.toLower name)
    match lower with
    | "frozen" =>
      let rest ← eat text '<' rest
      let (inner, rest) ← parseTypeInner resolver text fuel true rest
      let rest ← eat text '>' rest
      return (inner, rest)
    | "list" =>
      let rest ← eat text '<' rest
      let (element, rest) ← parseTypeInner resolver text fuel false rest
      let rest ← eat text '>' rest
      return (list element frozen, rest)
    | "set" =>
      let rest ← eat text '<' rest
      let (element, rest) ← parseTypeInner resolver text fuel false rest
      let rest ← eat text '>' rest
      return (set element frozen, rest)
    | "map" =>
      let rest ← eat text '<' rest
      let (key, rest) ← parseTypeInner resolver text fuel false rest
      let rest ← eat text ',' rest
      let (value, rest) ← parseTypeInner resolver text fuel false rest
      let rest ← eat text '>' rest
      return (map key value frozen, rest)
    | "tuple" =>
      let rest ← eat text '<' rest
      let (first, rest) ← parseTypeInner resolver text fuel false rest
      let (others, rest) ← parseTupleRest resolver text fuel rest
      let rest ← eat text '>' rest
      return (tuple (first :: others), rest)
    | "vector" =>
      let rest ← eat text '<' rest
      let (element, rest) ← parseTypeInner resolver text fuel false rest
      let rest ← eat text ',' rest
      let (dims, rest) ← dimensions text rest
      let rest ← eat text '>' rest
      return (vector element dims, rest)
    | _ => return (leaf resolver name lower frozen, rest)

/-- The components of a tuple after the first. -/
def parseTupleRest (resolver : UdtResolver) (text : List Char) :
    ℕ → List Char → Except CdmError (List CqlTypeInfo × List Char)
  | 0, rest => .error (syntaxError text rest "expected a type name")
  | fuel + 1, rest =>
    match skipWhitespace rest with
    | ',' :: rest => do
      let (element, rest) ← parseTypeInner resolver text fuel false rest
      let (others, rest) ← parseTupleRest resolver text fuel rest
      return (element :: others, rest)
    | rest => .ok ([], rest)

end

/-- Parses a type, resolving UDT names through `resolver`. -/
def parseWith (resolver : UdtResolver) (text : String) : Except CdmError CqlTypeInfo := do
  let chars := text.toList
  let (parsed, rest) ← parseTypeInner resolver chars (chars.length + 1) false chars
  match skipWhitespace rest with
  | [] => return parsed
  | rest => throw (syntaxError chars rest "unexpected trailing input")

/-- Parses a type as `system_schema.columns.type` spells it, leaving UDT fields unresolved. -/
def parse (text : String) : Except CdmError CqlTypeInfo := parseWith (fun _ _ => none) text

end CqlTypeInfo

end Cdm
