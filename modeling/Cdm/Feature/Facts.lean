import Cdm.Codec.Wire
import Cdm.Codec.Types
import Cdm.Cql.Schema
import Cdm.Lib.Fallible

/-!
# What the features know of a table

A feature sees the columns of a table with their types parsed and their role in the key known.  The
facts of the origin are those of the columns the run reads, in projection order, so that a position
in them is a position in a row.

The features read serialized maps and lists with their own reader: the framing of the codec, with
errors of its own.
-/

namespace Cdm

namespace CqlTypeInfo

/-- Whether this is a list, set, map, tuple, UDT or vector. -/
def isCollection : CqlTypeInfo → Bool
  | list _ _ | set _ _ | map _ _ _ | tuple _ | udt _ _ _ _ | vector _ _ => true
  | _ => false

/-- Whether the type is frozen.  Tuples are implicitly so, and are not reported. -/
def isFrozen : CqlTypeInfo → Bool
  | list _ frozen | set _ frozen | map _ _ frozen | udt _ _ _ frozen => frozen
  | _ => false

end CqlTypeInfo

/-- One column, with its type parsed and its role in the table known. -/
structure ColumnFacts where
  name : String
  cqlType : CqlTypeInfo
  key : Bool

/-- Whether the column can carry a `WRITETIME` or a `TTL`. -/
def ColumnFacts.canCarryTtlOrWritetime (column : ColumnFacts) (useCollections : Bool) : Bool :=
  let isTuple := match column.cqlType with
    | .tuple _ => true
    | _ => false
  if column.key then false
  else if column.cqlType.isPrimitive || isTuple then true
  else if column.cqlType.isFrozen then true
  else useCollections && column.cqlType.isCollection

/-- One side's table, as the features see it. -/
structure TableFacts where
  table : TableRef
  columns : List ColumnFacts

namespace TableFacts

variable (facts : TableFacts)

/-- The named column, if the table has one. -/
def column (name : String) : Option ColumnFacts := facts.columns.find? (·.name = name)

/-- The position of the named column. -/
def indexOf (name : String) : Option ℕ := facts.columns.findIdx? (·.name = name)

theorem getElem?_indexOf {facts : TableFacts} {name : String} {index : ℕ}
    (h : facts.indexOf name = some index) : facts.columns[index]? = facts.column name := by
  rw [column, List.find?_eq_bind_findIdx?_getElem?]
  rw [indexOf] at h
  rw [h]
  rfl

/-- Whether the table has a `counter` column. -/
def isCounterTable : Bool := facts.columns.any fun column => column.cqlType = .primitive .counter

/-- The columns that can supply a `WRITETIME` or a `TTL`. -/
def ttlWritetimeColumns (useCollections : Bool) : List String :=
  (facts.columns.filter (·.canCarryTtlOrWritetime useCollections)).map ColumnFacts.name

/-- The facts of one column. -/
def factsOf [AlphanumericTable] (table : TableSchema) (column : ColumnMeta) :
    Except CdmError ColumnFacts :=
  match CqlTypeInfo.parse column.cqlType with
  | .ok cqlType =>
    .ok ⟨column.name, cqlType, (table.primaryKey.map ColumnMeta.name).contains column.name⟩
  | .error e => .error ((e.withTable table.tableRef).withColumn column.name)

/-- A table as the features see it: `columns` in row order, keyed by the table's primary key. -/
def ofColumns [AlphanumericTable] (table : TableSchema) (columns : List ColumnMeta) :
    Except CdmError TableFacts := do
  let columns ← columns.mapM (factsOf table)
  match (table.primaryKey.map ColumnMeta.name).find? fun key => !columns.any (·.name = key) with
  | some key =>
    .error (CdmError.withTable ⟨.schemaMismatch,
      s!"primary-key column `{key}` is not on table {table.tableRef}", {}⟩ table.tableRef)
  | none => .ok ⟨table.tableRef, columns⟩

theorem ofColumns_eq_ok [AlphanumericTable] {table : TableSchema} {columns : List ColumnMeta}
    {facts : TableFacts} (h : ofColumns table columns = .ok facts) :
    columns.mapM (factsOf table) = .ok facts.columns := by
  obtain ⟨parsed, hparsed, h⟩ := Fallible.bind_eq_ok.1 h
  split at h
  · cases h
  · cases h
    exact hparsed

theorem length_columns [AlphanumericTable] {table : TableSchema} {columns : List ColumnMeta}
    {facts : TableFacts} (h : ofColumns table columns = .ok facts) :
    facts.columns.length = columns.length :=
  (Fallible.mapM_eq_ok (ofColumns_eq_ok h)).length_eq.symm

/-- A column of the facts is the column of the row at its position, with its type parsed. -/
theorem getElem?_ofColumns [AlphanumericTable] {table : TableSchema} {columns : List ColumnMeta}
    {facts : TableFacts} (h : ofColumns table columns = .ok facts) {index : ℕ}
    {column : ColumnFacts} (hcolumn : facts.columns[index]? = some column) :
    ∃ declared, columns[index]? = some declared ∧ column.name = declared.name ∧
      CqlTypeInfo.parse declared.cqlType = .ok column.cqlType := by
  obtain ⟨declared, hdeclared, hfacts⟩ := Fallible.mapM_getElem? (ofColumns_eq_ok h) index hcolumn
  rw [factsOf] at hfacts
  cases hparse : CqlTypeInfo.parse declared.cqlType with
  | error e =>
    rw [hparse] at hfacts
    cases hfacts
  | ok cqlType =>
    rw [hparse] at hfacts
    cases hfacts
    exact ⟨declared, hdeclared, rfl, hparse⟩

end TableFacts

/-- The origin and target tables a run reconciles. -/
structure FeatureSchema where
  origin : TableFacts
  target : TableFacts

/-! ### Reading serialized maps and lists -/

namespace FeatureWire

def truncated (what : String) : CdmError :=
  ⟨.typeConversion, s!"truncated serialised {what}", {}⟩

/-- One element with its length; `none` for the null marker. -/
def takeElement (what : String) (bytes : Bytes) : Except CdmError (RawCell × Bytes) :=
  (Wire.takeElement bytes).mapError fun _ => truncated what

/-- The next `n` elements of a list. -/
def takeElements (what : String) : ℕ → Bytes → Except CdmError (List RawCell)
  | 0, _ => .ok []
  | n + 1, bytes => do
    let (element, rest) ← takeElement what bytes
    let elements ← takeElements what n rest
    return element :: elements

/-- The next `n` entries of a map. -/
def takeEntries (what : String) : ℕ → Bytes → Except CdmError (List (RawCell × RawCell))
  | 0, _ => .ok []
  | n + 1, bytes => do
    let (key, rest) ← takeElement what bytes
    let (value, rest) ← takeElement what rest
    let entries ← takeEntries what n rest
    return (key, value) :: entries

/-- The count at the start of a serialized collection, which may not be negative. -/
def takeCount (what : String) (bytes : Bytes) : Except CdmError (ℕ × Bytes) := do
  let (count, rest) ← (Wire.takeI32 bytes).mapError fun _ => truncated what
  if count < 0 then .error ⟨.typeConversion, s!"{what} has a negative element count", {}⟩
  else .ok (count.toNat, rest)

/-- The entries of a serialized map, in wire order. -/
def mapEntries (bytes : Bytes) : Except CdmError (List (RawCell × RawCell)) := do
  let (count, rest) ← takeCount "map" bytes
  takeEntries "map" count rest

/-- The elements of a serialized list. -/
def listElements (bytes : Bytes) : Except CdmError (List RawCell) := do
  let (count, rest) ← takeCount "list" bytes
  takeElements "list" count rest

end FeatureWire

end Cdm
