import Cdm.Cql.Statement

/-!
# The origin statements

The scan of a token range, and the lookup of an origin row by primary key.  The condition of the
scan is put behind its second bound as it is given.
-/

namespace Cdm

/-- The projection as it appears after `SELECT`. -/
def OriginProjection.cql (projection : OriginProjection) : String := join projection.entries

/-- The origin token-range scan. -/
structure OriginRangeSelect where
  cql : String
  deriving DecidableEq, Repr

namespace OriginRangeSelect

variable (table : TableSchema) (projection : OriginProjection)

/-- Builds the scan.  `cqlWhere` is the assembled fragment, its conjunction included. -/
def new (cqlWhere : Option String) (compatJava : Bool) : OriginRangeSelect :=
  let partitionKey := join (table.partitionKey.map ColumnMeta.quotedName)
  let filter := cqlWhere.getD ""
  let allowFiltering :=
    if compatJava || !(Text.trim filter.toList).isEmpty then " ALLOW FILTERING" else ""
  ⟨s!"SELECT {projection.cql} FROM {table.quotedName} WHERE TOKEN({partitionKey}) >= ? AND " ++
    s!"TOKEN({partitionKey}) <= ?{filter}{allowFiltering}"⟩

/-- The select that ends behind the second token bound. -/
def bounded : String :=
  let partitionKey := join (table.partitionKey.map ColumnMeta.quotedName)
  s!"SELECT {projection.cql} FROM {table.quotedName} WHERE TOKEN({partitionKey}) >= ? AND " ++
    s!"TOKEN({partitionKey}) <= ?"

/-- The condition stands behind the second bound. -/
theorem cql_new (cqlWhere : Option String) (compatJava : Bool) :
    (new table projection cqlWhere compatJava).cql = bounded table projection ++
      (cqlWhere.getD "" ++ if compatJava || !(Text.trim (cqlWhere.getD "").toList).isEmpty then
        " ALLOW FILTERING" else "") := by
  unfold new bounded
  simp only [String.append_assoc]
  rfl

end OriginRangeSelect

/-- The origin lookup by primary key. -/
structure OriginSelectByPk where
  cql : String

/-- Builds the lookup over the origin's own primary key. -/
def OriginSelectByPk.new (table : TableSchema) (projection : OriginProjection) :
    OriginSelectByPk :=
  let predicate :=
    " AND ".intercalate (table.primaryKey.map fun column => s!"{column.quotedName}=?")
  ⟨s!"SELECT {projection.cql} FROM {table.quotedName} WHERE {predicate}"⟩

/-- Every statement a run will execute. -/
structure StatementSet where
  originRangeSelect : String
  originSelectByPk : String
  targetSelectByPk : String
  targetUpsert : String

end Cdm
