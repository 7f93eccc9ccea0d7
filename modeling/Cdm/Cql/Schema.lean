import Cdm.Core.Error
import Cdm.Lib.Text
import Mathlib.Data.List.Sort

/-!
# Identifiers and table metadata

How CQL identifiers are quoted and read back, and what the introspection of a table reports: its
columns with their types as `system_schema` spells them, and the order of its key.

A table has no two columns of one name, since the name is part of the primary key of
`system_schema.columns`; `TableSchema` carries that as a field.
-/

namespace Cdm

/-! ### Identifiers -/

namespace Identifier

open Text

/-- The reserved words of the CQL grammar. -/
def reservedKeywords : List String :=
  ["add", "allow", "alter", "and", "apply", "asc", "authorize", "batch", "begin", "by",
    "columnfamily", "create", "default", "delete", "desc", "describe", "drop", "entries",
    "execute", "from", "full", "grant", "if", "in", "index", "infinity", "insert", "into", "is",
    "keyspace", "limit", "materialized", "modify", "nan", "norecursive", "not", "null", "of",
    "on", "or", "order", "primary", "rename", "replace", "revoke", "schema", "select", "set",
    "table", "to", "token", "truncate", "unlogged", "unset", "update", "use", "using", "view",
    "where", "with"]

/-- Whether `name` is a reserved word and therefore always needs quoting. -/
def isReserved (name : List Char) : Bool := String.ofList (toLower name) ∈ reservedKeywords

/-- Whether `name` cannot be written without quotes. -/
def needsQuoting : List Char → Bool
  | [] => true
  | c :: cs =>
    let firstIsPlain := c.isLower || c == '_'
    let restIsPlain := cs.all fun c => c.isLower || c.isDigit || c == '_'
    !(firstIsPlain && restIsPlain) || isReserved (c :: cs)

/-- Whether `name` starts and ends with a quotation mark. -/
def alreadyQuoted (name : List Char) : Bool :=
  2 ≤ name.length && name.head? = some doubleQuote && endsWith doubleQuote name

/-- Whether `name` is already written as a quoted identifier. -/
def isQuoted (name : List Char) : Bool := alreadyQuoted name && !name.any isWhitespace

/-- Splits `TTL(col)` into the function and its argument. -/
def splitFunctionForm (name : List Char) : Option (List Char × List Char) :=
  let head := name.takeWhile (· ≠ '(')
  match name.dropWhile (· ≠ '(') with
  | [] => none
  | _ :: argument =>
    if !endsWith ')' name then none
    else if head.isEmpty || !head.all (fun c => c.isAlphanum || c == '_') then none
    else some (head, argument.dropLast)

/-- Writes an identifier with quotes, doubling those inside. -/
def quote (name : List Char) : List Char :=
  [doubleQuote] ++
    name.flatMap (fun c => if c = doubleQuote then [doubleQuote, doubleQuote] else [c]) ++
    [doubleQuote]

/-- `format`, with a bound on how deep function forms nest. -/
def formatWithin : ℕ → List Char → List Char
  | 0, name => name
  | fuel + 1, name =>
    if name.isEmpty || isQuoted name then name
    else
      match splitFunctionForm name with
      | some (function, argument) =>
        let formatted :=
          if alreadyQuoted argument then argument else formatWithin fuel argument
        function ++ ['('] ++ formatted ++ [')']
      | none => if needsQuoting name then quote name else name

/-- Writes an internal identifier as CQL, quoting it only when it must be. -/
def format (name : String) : String :=
  String.ofList (formatWithin (name.toList.length + 1) name.toList)

/-- Reads every doubled quotation mark as one. -/
def undouble : List Char → List Char
  | [] => []
  | [c] => [c]
  | c :: d :: cs =>
    if c = doubleQuote ∧ d = doubleQuote then doubleQuote :: undouble cs
    else c :: undouble (d :: cs)

/-- Reads a CQL identifier back to its internal form.  An unquoted name is not folded. -/
def unformat (name : String) : String :=
  let chars := name.toList
  if isQuoted chars then String.ofList (undouble chars.tail.dropLast)
  else if chars.contains doubleQuote || chars.any isWhitespace then
    -- not a well-formed quoted name and not a bare one, such as a quoted name with a space
    if alreadyQuoted (trim chars) then String.ofList (undouble (trim chars).tail.dropLast)
    else name
  else name

/-- A `keyspace.table` reference, each part quoted as needed. -/
def qualified (keyspace table : String) : String := format keyspace ++ "." ++ format table

end Identifier

/-! ### Tables -/

/-- What role a column plays in its table. -/
inductive ColumnKind
  | partitionKey
  | clustering
  | static
  | regular
  deriving DecidableEq, Repr

/-- Whether the column is part of the primary key. -/
def ColumnKind.isKey : ColumnKind → Bool
  | partitionKey | clustering => true
  | _ => false

/-- One column of a table. -/
structure ColumnMeta where
  name : String
  /-- The type, as `system_schema.columns.type` spells it. -/
  cqlType : String
  kind : ColumnKind
  /-- The position within the partition or clustering key. -/
  position : ℤ
  deriving DecidableEq, Repr

namespace ColumnMeta

/-- The name as it must be written in CQL. -/
def quotedName (column : ColumnMeta) : String := Identifier.format column.name

/-- The type with one layer of `frozen<…>` removed. -/
def unfrozen (column : ColumnMeta) : List Char :=
  let ty := Text.trim column.cqlType.toList
  if 8 < Text.utf8Len ty && (Text.toLower ty).take 7 = "frozen<".toList && Text.endsWith '>' ty then
    Text.trim (ty.drop 7).dropLast
  else ty

/-- Whether this is a counter column, which makes the table a counter table. -/
def isCounter (column : ColumnMeta) : Bool := Text.toLower column.unfrozen = "counter".toList

end ColumnMeta

/-- A table as `system_schema` describes it. -/
structure TableSchema where
  keyspace : String
  table : String
  columns : List ColumnMeta
  nodup : (columns.map ColumnMeta.name).Nodup

namespace TableSchema

variable (table : TableSchema)

def tableRef : TableRef := ⟨table.keyspace, table.table⟩

/-- The `keyspace.table` reference, quoted as CQL requires. -/
def quotedName : String := Identifier.qualified table.keyspace table.table

/-- The named column. -/
def column (name : String) : Option ColumnMeta := table.columns.find? (·.name = name)

/-- The columns of one kind, in the order of their positions. -/
def ofKind (kind : ColumnKind) : List ColumnMeta :=
  (table.columns.filter (·.kind = kind)).insertionSort (·.position ≤ ·.position)

def partitionKey : List ColumnMeta := table.ofKind .partitionKey

def clusteringColumns : List ColumnMeta := table.ofKind .clustering

/-- The primary key columns: partition key, then clustering columns. -/
def primaryKey : List ColumnMeta := table.partitionKey ++ table.clusteringColumns

/-- Whether any column is a counter. -/
def isCounterTable : Bool := table.columns.any ColumnMeta.isCounter

theorem mem_ofKind {kind : ColumnKind} {column : ColumnMeta} :
    column ∈ table.ofKind kind ↔ column ∈ table.columns ∧ column.kind = kind := by
  simp [ofKind, List.mem_insertionSort]

/-- The key columns are those of the table that are of a key kind. -/
theorem mem_primaryKey {column : ColumnMeta} :
    column ∈ table.primaryKey ↔ column ∈ table.columns ∧ column.kind.isKey = true := by
  simp only [primaryKey, partitionKey, clusteringColumns, List.mem_append, mem_ofKind]
  cases column.kind <;> simp [ColumnKind.isKey]

/-- A name identifies its column. -/
theorem eq_of_name_eq {a b : ColumnMeta} (ha : a ∈ table.columns) (hb : b ∈ table.columns)
    (h : a.name = b.name) : a = b :=
  List.inj_on_of_nodup_map table.nodup ha hb h

end TableSchema

end Cdm
