import Cdm.Cql.Mapping
import Cdm.Lib.Fallible
import Mathlib.Data.List.ReduceOption

/-!
# The target statements

The lookup of a target row by primary key, and the write: an `INSERT` for an ordinary table, an
`UPDATE … SET c = c + ?` for a counter one.  Both shapes of the write come down to one list of
`BindSlot`s, in the order of the bind markers.
-/

namespace Cdm

open Fallible List

/-- Joins CQL fragments with a bare comma. -/
def join (parts : List String) : String :=
  parts.foldl (fun out part => (if out.isEmpty then out else out ++ ",") ++ part) ""

/-! ### The origin projection -/

/-- The columns the range scan reads, in row order: the mapped columns of the table, then the
virtual `TTL(…)` and `WRITETIME(…)` expressions. -/
structure OriginProjection where
  entries : List String
  baseColumns : ℕ

namespace OriginProjection

def new (columns : List ColumnMeta) (virtualExpressions : List String) : OriginProjection where
  entries := columns.map ColumnMeta.quotedName ++ virtualExpressions.map Identifier.format
  baseColumns := columns.length

/-- How many cells a row of this projection has. -/
def width (projection : OriginProjection) : ℕ := projection.entries.length

end OriginProjection

/-! ### The lookup by primary key -/

/-- A target primary-key column without a source. -/
def noSource (table : TableSchema) (column : ColumnMeta) : CdmError :=
  (((⟨.schemaMismatch,
    s!"target primary-key column `{column.name}` of {table.quotedName} has no source, so no " ++
      "WHERE clause can identify the row (SCH-006).", {}⟩ : CdmError).withSide .target).withTable
    table.tableRef).withColumn column.name

/-- One term of the `WHERE` clause, and the name it binds, if it takes a bind marker. -/
def whereTerm (mapping : ColumnMapping) (column : ColumnMeta) :
    Except CdmError (String × Option String) :=
  match mapping.sourceOf column.name with
  | some (.constant literal) => .ok (s!"{column.quotedName}={literal}", none)
  | some .absent | none => .error (noSource mapping.targetTable column)
  | some _ => .ok (s!"{column.quotedName}=?", some column.name)

/-- The target `WHERE` clause over the primary key, and the key columns that carry a bind marker. -/
def whereClause (mapping : ColumnMapping) : Except CdmError (String × List String) := do
  let terms ← mapping.targetTable.primaryKey.mapM (whereTerm mapping)
  return (" AND ".intercalate (terms.map Prod.fst), (terms.map Prod.snd).reduceOption)

/-- The target lookup by primary key. -/
structure TargetSelectByPk where
  cql : String
  /-- The target key columns that carry a bind marker, in bind order. -/
  boundKeyColumns : List String

def TargetSelectByPk.new (mapping : ColumnMapping) : Except CdmError TargetSelectByPk := do
  let (predicate, bound) ← whereClause mapping
  let projection := join (mapping.targetTable.columns.map ColumnMeta.quotedName)
  return {
    cql := s!"SELECT {projection} FROM {mapping.targetTable.quotedName} WHERE {predicate}"
    boundKeyColumns := bound }

/-- Only key columns take a bind marker in the lookup. -/
theorem TargetSelectByPk.mem_boundKeyColumns {mapping : ColumnMapping} {select : TargetSelectByPk}
    (h : TargetSelectByPk.new mapping = .ok select) {name : String}
    (hname : name ∈ select.boundKeyColumns) :
    ∃ column ∈ mapping.targetTable.primaryKey, column.name = name := by
  obtain ⟨⟨predicate, bound⟩, hwhere, h⟩ := bind_eq_ok.1 h
  cases h
  obtain ⟨terms, hterms, hwhere⟩ := bind_eq_ok.1 hwhere
  cases hwhere
  rw [reduceOption_mem_iff, mem_iff_getElem?] at hname
  obtain ⟨i, hi⟩ := hname
  rw [getElem?_map, Option.map_eq_some_iff] at hi
  obtain ⟨term, hterm, hsome⟩ := hi
  obtain ⟨column, hcolumn, hres⟩ := mapM_getElem? hterms i hterm
  refine ⟨column, mem_of_getElem? hcolumn, ?_⟩
  unfold whereTerm at hres
  split at hres <;> cases hres
  · cases hsome
  · exact Option.some.inj hsome

/-- A key column takes a bind marker unless it is a constant. -/
theorem TargetSelectByPk.name_mem_boundKeyColumns {mapping : ColumnMapping}
    {select : TargetSelectByPk} (h : TargetSelectByPk.new mapping = .ok select)
    {column : ColumnMeta} (hcolumn : column ∈ mapping.targetTable.primaryKey)
    {source : TargetSource} (hsource : mapping.sourceOf column.name = some source)
    (hconstant : source.isConstant = false) : column.name ∈ select.boundKeyColumns := by
  obtain ⟨⟨predicate, bound⟩, hwhere, h⟩ := bind_eq_ok.1 h
  cases h
  obtain ⟨terms, hterms, hwhere⟩ := bind_eq_ok.1 hwhere
  cases hwhere
  obtain ⟨hmap, hok⟩ := mapM_eq_ok_map ("", none) hterms
  have hterm := hok column hcolumn
  have hname : (getD (whereTerm mapping column) ("", none)).2 = some column.name := by
    unfold whereTerm at hterm ⊢
    rw [hsource] at hterm ⊢
    cases source with
    | constant literal => cases hconstant
    | absent => cases hterm
    | origin index => rfl
    | explodeKey => rfl
    | explodeValue => rfl
    | extractJson index => rfl
  rw [reduceOption_mem_iff, ← hname, hmap, map_map]
  exact mem_map_of_mem hcolumn

/-! ### The write -/

/-- Whether the statement carries `USING TTL` and `USING TIMESTAMP`. -/
structure UsingClause where
  ttl : Bool
  timestamp : Bool
  deriving DecidableEq, Repr

def UsingClause.render : UsingClause → String
  | ⟨false, false⟩ => ""
  | ⟨true, false⟩ => " USING TTL ?"
  | ⟨false, true⟩ => " USING TIMESTAMP ?"
  | ⟨true, true⟩ => " USING TTL ? AND TIMESTAMP ?"

/-- One bind marker of the target statement. -/
inductive BindSlot
  /-- The value of the target column at this index. -/
  | column (index : ℕ)
  /-- The row's TTL, in seconds. -/
  | ttl
  /-- The row's writetime, in microseconds. -/
  | writetime
  /-- A primary-key component in the `WHERE` clause of an `UPDATE`. -/
  | keyColumn (index : ℕ)
  deriving DecidableEq, Repr

/-- The target write statement. -/
structure TargetUpsert where
  cql : String
  counter : Bool
  usingClause : UsingClause
  slots : List BindSlot

namespace TargetUpsert

/-- The markers of the `USING` clause. -/
def usingSlots (u : UsingClause) : List BindSlot :=
  (if u.ttl then [BindSlot.ttl] else []) ++ (if u.timestamp then [BindSlot.writetime] else [])

/-- Whether the target column at `index` is inlined as a literal. -/
def isConstant (mapping : ColumnMapping) (index : ℕ) : Bool :=
  (mapping.source index).any TargetSource.isConstant

/-- The literals of the constant columns among `columns`, with the columns. -/
def constants (mapping : ColumnMapping) (columns : List (ColumnMeta × ℕ)) :
    List (ColumnMeta × String) :=
  columns.filterMap fun column =>
    match mapping.source column.2 with
    | some (.constant literal) => some (column.1, literal)
    | _ => none

/-- The columns that take a bind marker. -/
def boundColumns (mapping : ColumnMapping) (columns : List (ColumnMeta × ℕ)) :
    List (ColumnMeta × ℕ) :=
  columns.filter fun column => !isConstant mapping column.2

/-- Appends fragments to a comma-joined text. -/
def appendList (left : String) (right : List String) : String :=
  if right.isEmpty then left else (if left.isEmpty then left else left ++ ",") ++ join right

/-- `INSERT INTO ks.tbl (bound…, const…) VALUES (?, …, <literals>)[ USING …]`. -/
def insert (mapping : ColumnMapping) (u : UsingClause) : TargetUpsert :=
  let columns := mapping.targetColumns.zipIdx
  let bound := boundColumns mapping columns
  let constant := constants mapping columns
  let names := appendList (join (bound.map (·.1.quotedName))) (constant.map (·.1.quotedName))
  let values := appendList (",".intercalate (bound.map fun _ => "?")) (constant.map Prod.snd)
  { cql := s!"INSERT INTO {mapping.targetTable.quotedName} ({names}) VALUES ({values}){u.render}"
    counter := false
    usingClause := u
    slots := bound.map (fun column => BindSlot.column column.2) ++ usingSlots u }

/-- One entry of the `SET` list. -/
def assignment (mapping : ColumnMapping) (column : ColumnMeta × ℕ) : String :=
  let name := column.1.quotedName
  match mapping.source column.2 with
  | some (.constant literal) => s!"{name}={literal}"
  | _ => if column.1.isCounter then s!"{name}={name}+?" else s!"{name}=?"

/-- The positions of the key columns that take a bind marker. -/
def keySlots (mapping : ColumnMapping) : List BindSlot :=
  let indices := mapping.targetTable.primaryKey.filterMap fun column =>
    mapping.targetColumns.findIdx? (·.name = column.name)
  (indices.filter fun index => !isConstant mapping index).map BindSlot.keyColumn

/-- `UPDATE ks.tbl[ USING …] SET c = c + ?, … WHERE <pk>`. -/
def update (mapping : ColumnMapping) (u : UsingClause) : Except CdmError TargetUpsert := do
  let columns := mapping.targetColumns.zipIdx.filter fun column => !column.1.kind.isKey
  let assignments := columns.map (assignment mapping)
  if assignments.isEmpty then
    throw ((⟨.schemaMismatch,
      s!"the counter table {mapping.targetTable.quotedName} has no non-key column to update, so " ++
        "the generated statement would write nothing (SCH-005).", {}⟩ : CdmError).withSide
      .target |>.withTable mapping.targetTable.tableRef)
  let (predicate, _) ← whereClause mapping
  let set := ",".intercalate assignments
  return {
    cql := s!"UPDATE {mapping.targetTable.quotedName}{u.render} SET {set} WHERE {predicate}"
    counter := true
    usingClause := u
    slots := usingSlots u ++
      (boundColumns mapping columns).map (fun column => BindSlot.column column.2) ++
      keySlots mapping }

/-- The statement the mapping implies. -/
def new (mapping : ColumnMapping) (u : UsingClause) : Except CdmError TargetUpsert :=
  if mapping.targetIsCounter then update mapping u else .ok (insert mapping u)

/-- A column that is not a constant takes a bind marker in an `INSERT`. -/
theorem column_mem_slots_insert {mapping : ColumnMapping} {u : UsingClause} {index : ℕ}
    (hindex : index < mapping.targetColumns.length) (hconstant : isConstant mapping index = false) :
    .column index ∈ (insert mapping u).slots := by
  refine mem_append_left _ (mem_map.2 ⟨(mapping.targetColumns[index], index), ?_, rfl⟩)
  rw [boundColumns, mem_filter, mem_zipIdx_iff_getElem?]
  exact ⟨getElem?_eq_getElem hindex, by simp [hconstant]⟩

end TargetUpsert

end Cdm
