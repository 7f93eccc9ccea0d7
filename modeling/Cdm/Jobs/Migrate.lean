import Cdm.Cql.Rows
import Cdm.Feature.Writetime
import Cdm.Feature.Explode
import Cdm.Feature.ExtractJson

/-!
# The migrate job, row by row

Everything that does not depend on the row is resolved into a `MigratePlan` first.  A row is then
bound straight off the response frame when no feature has to see it, and otherwise materialised,
classified by the features and bound with the inputs they produce: once, or once for each entry of
an exploded map.

What the driver does with a write is no part of the model: `MigrateJob.processRow` says which
parameters are pushed into the write buffer, in order, and how the row ended.  The target row a
counter write is computed from is an argument.
-/

namespace Cdm

open Fallible

/-! ### Counters -/

/-- The counter columns of a run. -/
structure CounterPlan where
  columns : List CounterColumn
  deriving DecidableEq, Repr

namespace CounterPlan

/-- Resolves every counter column that the origin supplies. -/
def resolve (mapping : ColumnMapping) : Except CdmError CounterPlan :=
  let columns := mapping.targetColumns.zipIdx.filterMap fun column =>
    if column.1.isCounter then
      match mapping.source column.2 with
      | some (.origin originIndex) => some ⟨originIndex, column.2⟩
      | _ => none
    else none
  if mapping.targetIsCounter && columns.isEmpty then
    .error (((⟨.schemaMismatch,
      s!"the target {mapping.targetTable.quotedName} is a counter table but no counter column is " ++
        "mapped from the origin, so every generated UPDATE would add nothing (MIG-030, MIG-031).",
      {}⟩ : CdmError).withSide .target).withTable mapping.targetTable.tableRef)
  else .ok ⟨columns⟩

/-- A target without counters has none to compute deltas for. -/
theorem columns_eq_nil {mapping : ColumnMapping} {plan : CounterPlan}
    (h : resolve mapping = .ok plan) (hcounter : mapping.targetIsCounter = false) :
    plan.columns = [] := by
  rw [resolve, hcounter, Bool.false_and, if_neg (by simp)] at h
  cases h
  rw [List.filterMap_eq_nil_iff]
  rintro ⟨column, index⟩ hcolumn
  have hmem : column ∈ mapping.targetTable.columns := List.fst_mem_of_mem_zipIdx hcolumn
  rw [ColumnMapping.targetIsCounter, TableSchema.isCounterTable, List.any_eq_false] at hcounter
  simp [hcounter column hmem]

/-- Reads an eight-byte counter off the wire. -/
def counterValue (bytes : Bytes) (side : Side) : Except CdmError ℤ :=
  if bytes.length = 8 then .ok (BigEndian.toInt bytes)
  else .error (CdmError.withSide ⟨.typeConversion,
    s!"a counter cell on the {side.asStr} is {bytes.length} bytes; a CQL counter is always eight " ++
      "(MIG-031).", {}⟩ side)

/-- The value the target holds for a counter; zero where it holds none. -/
def currentValue (current : Option Row) (targetIndex : ℕ) : Except CdmError ℤ :=
  match (current.bind fun row => row.cells[targetIndex]?).join with
  | some bytes => counterValue bytes .target
  | none => .ok 0

/-- The delta of one counter column: `none` when the origin has no value for it. -/
def delta (origin : Row) (current : Option Row) (column : CounterColumn) :
    Except CdmError (Option (ℕ × Bytes)) :=
  match (origin.cells[column.originIndex]?).join with
  | none => .ok none
  | some bytes => do
    let originValue ← counterValue bytes .origin
    let targetValue ← currentValue current column.targetIndex
    return some (column.originIndex, Wire.writeI64 (originValue - targetValue))

/-- `origin - current` for every counter column, wrapping as the counter itself does. -/
def deltas (plan : CounterPlan) (origin : Row) (current : Option Row) :
    Except CdmError (List (ℕ × Bytes)) := do
  let deltas ← plan.columns.mapM (delta origin current)
  return deltas.reduceOption

/-- The origin row with its counter columns replaced by the deltas that must be added. -/
def deltaRow (row : Row) (deltas : List (ℕ × Bytes)) : Row :=
  ⟨row.cells.mapIdx fun index cell => ((deltas.find? (·.1 = index)).map Prod.snd).or cell⟩

end CounterPlan

/-! ### The plan -/

/-- A row-level filter. -/
abbrev Filter := Record → Except CdmError Bool

/-- Whether every filter of the chain accepts the record; a later filter does not see a record an
earlier one has rejected. -/
def accepts : List Filter → Filter
  | [], _ => .ok true
  | filter :: filters, record => do
    if ← filter record then accepts filters record else return false

/-- The features a run has switched on. -/
structure MigrateFeatures where
  filters : List Filter := []
  writetime : WritetimeTtlPlan := {}
  explode : Option ExplodePlan := none
  extractJson : Option ExtractJsonPlan := none

/-- Whether a feature has to see the row as owned data. -/
def MigrateFeatures.needsRecord (features : MigrateFeatures) : Bool :=
  !features.filters.isEmpty || features.writetime.hasWritetime || features.writetime.hasTtl ||
    features.explode.isSome || features.extractJson.isSome

/-- The immutable execution plan of one migrate run. -/
structure MigratePlan where
  binder : Binder
  keyBinding : List ℕ
  counters : CounterPlan
  originKeyIndices : List ℕ
  projectionWidth : ℕ
  features : MigrateFeatures
  needsRecord : Bool

namespace MigratePlan

/-- The position of one of the origin's primary-key columns in the projection. -/
def originKeyIndex (mapping : ColumnMapping) (column : ColumnMeta) : Except CdmError ℕ :=
  match mapping.originColumns.findIdx? (·.name = column.name) with
  | some index => .ok index
  | none => .error ⟨.internal,
      s!"the origin primary-key column `{column.name}` is not in the projection, which `SCH-004` " ++
        "forbids skipping", {}⟩

/-- Resolves the plan from the mapping, the projection and the features. -/
def resolve [AlphanumericTable] (mapping : ColumnMapping) (projection : OriginProjection)
    (planner : Planner) (missingKey : MissingKeyPolicy) (mapRemoveNullValue : Bool)
    (features : MigrateFeatures) : Except CdmError MigratePlan := do
  let upsert ← TargetUpsert.new mapping features.writetime.usingClause
  let binder ← Binder.new mapping upsert planner missingKey mapRemoveNullValue
  let select ← TargetSelectByPk.new mapping
  let keyBinding ← binder.keyBinding select
  let counters ← CounterPlan.resolve mapping
  let originKeyIndices ← mapping.originTable.primaryKey.mapM (originKeyIndex mapping)
  return {
    binder, keyBinding, counters, originKeyIndices
    projectionWidth := projection.width
    features
    needsRecord := features.needsRecord }

/-- The statement, the binder and the counters of a plan. -/
theorem resolve_eq_ok [AlphanumericTable] {mapping : ColumnMapping} {projection : OriginProjection}
    {planner : Planner} {missingKey : MissingKeyPolicy} {mapRemoveNullValue : Bool}
    {features : MigrateFeatures} {plan : MigratePlan}
    (h : resolve mapping projection planner missingKey mapRemoveNullValue features = .ok plan) :
    ∃ upsert, TargetUpsert.new mapping features.writetime.usingClause = .ok upsert ∧
      Binder.new mapping upsert planner missingKey mapRemoveNullValue = .ok plan.binder ∧
      CounterPlan.resolve mapping = .ok plan.counters := by
  obtain ⟨upsert, hupsert, h⟩ := bind_eq_ok.1 h
  obtain ⟨binder, hbinder, h⟩ := bind_eq_ok.1 h
  obtain ⟨select, -, h⟩ := bind_eq_ok.1 h
  obtain ⟨binding, -, h⟩ := bind_eq_ok.1 h
  obtain ⟨counters, hcounters, h⟩ := bind_eq_ok.1 h
  obtain ⟨indices, -, h⟩ := bind_eq_ok.1 h
  cases h
  exact ⟨upsert, hupsert, hbinder, hcounters⟩

theorem needsRecord_of_resolve [AlphanumericTable] {mapping : ColumnMapping}
    {projection : OriginProjection} {planner : Planner} {missingKey : MissingKeyPolicy}
    {mapRemoveNullValue : Bool} {features : MigrateFeatures} {plan : MigratePlan}
    (h : resolve mapping projection planner missingKey mapRemoveNullValue features = .ok plan) :
    plan.needsRecord = plan.features.needsRecord := by
  obtain ⟨upsert, -, h⟩ := bind_eq_ok.1 h
  obtain ⟨binder, -, h⟩ := bind_eq_ok.1 h
  obtain ⟨select, -, h⟩ := bind_eq_ok.1 h
  obtain ⟨binding, -, h⟩ := bind_eq_ok.1 h
  obtain ⟨counters, -, h⟩ := bind_eq_ok.1 h
  obtain ⟨indices, -, h⟩ := bind_eq_ok.1 h
  cases h
  rfl

/-- Whether this run writes counters. -/
def isCounterRun (plan : MigratePlan) : Bool := !plan.counters.columns.isEmpty

end MigratePlan

/-! ### One row -/

/-- How a row can fail: alone, or with the range it belongs to. -/
inductive RowError
  | record (error : CdmError)
  | range (error : CdmError)
  deriving DecidableEq

/-- The per-row values the enabled features produce. -/
structure RowInputs where
  ttl : Option ℤ
  writetime : Option ℤ
  extracted : Option RawCell
  entries : Option (List ExplodedEntry)

/-- What the enabled features say happens to one row. -/
inductive RowDecision
  | skipped
  | write (inputs : RowInputs)

/-- How one row ended: the parameters pushed into the write buffer, in order, whether it was skipped,
and what it failed with. -/
structure RowOutcome where
  pushed : List BoundWrite := []
  skipped : Bool := false
  error : Option RowError := none

namespace MigrateJob

/-- Copies a row into the owned form, padded to the width of the projection. -/
def materialiseRow (row : Row) (projectionWidth : ℕ) : Row :=
  ⟨(List.range (max projectionWidth row.cells.length)).map fun index => (row.cells[index]?).join⟩

/-- A row that is as wide as the projection is copied as it is. -/
theorem materialiseRow_eq_self {row : Row} {projectionWidth : ℕ}
    (h : projectionWidth ≤ row.cells.length) : materialiseRow row projectionWidth = row := by
  have hcells : (List.range (max projectionWidth row.cells.length)).map
      (fun index => (row.cells[index]?).join) = row.cells := by
    apply List.ext_getElem
    · simp [h]
    · intro index hleft hright
      simp [hright]
  rw [materialiseRow, hcells]

/-- The materialised row with its primary key. -/
def materialise (row : Row) (projectionWidth : ℕ) (keyIndices : List ℕ) : Record :=
  let cells := materialiseRow row projectionWidth
  Record.new ⟨keyIndices.map fun index => (cells.cells[index]?).join⟩ cells

section

variable [LiteralParsers] [SerdeJson]

/-- The extracted property of a record, when the feature is on. -/
def extracted (features : MigrateFeatures) (record : Record) : Except CdmError (Option RawCell) :=
  match features.extractJson with
  | some plan => plan.extractRecord record
  | none => .ok none

/-- The entries of a record's map, when the feature is on. -/
def entries (features : MigrateFeatures) (record : Record) :
    Except CdmError (Option (List ExplodedEntry)) :=
  match features.explode with
  | some plan => (plan.explodeRecord record).map some
  | none => .ok none

/-- Runs the filters and the row-shaping features.  A rejected row is skipped, and so is one whose
map has no entries. -/
def classify (features : MigrateFeatures) (record : Record) : Except CdmError RowDecision := do
  if !(← accepts features.filters record) then return .skipped
  let ttl ← features.writetime.ttl record.origin
  let writetime ← features.writetime.writetime record.origin
  let extracted ← extracted features record
  let entries ← entries features record
  return if entries.any List.isEmpty then .skipped
    else .write { ttl, writetime, extracted, entries }

end

def counterShapeMismatch : CdmError :=
  CdmError.withSide ⟨.internal,
    "the binder produced a write of the wrong shape for this table: the statement and the " ++
      "counter plan disagree about whether the target is a counter table (SCH-005)", {}⟩ .target

section

variable (plan : MigratePlan) (lookup : BoundWrite → Except CdmError (Option Row))

/-- A bind failure concerns the record alone. -/
def bindRecord (binder : Binder) (row : Row) (inputs : BindInputs) :
    Except RowError BoundWrite :=
  (binder.bind row inputs).mapError fun failure => .record failure.toError

/-- The counter path: read the target row, subtract, bind. -/
def writeCounterRow (row : Row) (inputs : BindInputs) : Except RowError BoundWrite := do
  let source := materialiseRow row plan.projectionWidth
  let key ← (plan.binder.bindKey plan.keyBinding source inputs).mapError fun failure =>
    RowError.record failure.toError
  let current ← (lookup key).mapError RowError.range
  let deltas ← (plan.counters.deltas source current).mapError RowError.record
  let values ← bindRecord plan.binder (CounterPlan.deltaRow source deltas) inputs
  if plan.binder.statement.counter then .ok values else .error (.range counterShapeMismatch)

/-- Binds one row and pushes it. -/
def writeRow (row : Row) (inputs : BindInputs) : Except RowError BoundWrite :=
  if plan.isCounterRun then writeCounterRow plan lookup row inputs
  else do
    let values ← bindRecord plan.binder row inputs
    if plan.binder.statement.counter then .error (.range counterShapeMismatch) else .ok values

variable {plan lookup}

/-- Without counters, a row is written as it is bound. -/
theorem toOption_writeRow (hcounters : plan.counters.columns = [])
    (hstatement : plan.binder.statement.counter = false) (row : Row) (inputs : BindInputs) :
    (writeRow plan lookup row inputs).toOption = (plan.binder.bind row inputs).toOption := by
  rw [writeRow, MigratePlan.isCounterRun, hcounters, hstatement]
  cases hbind : plan.binder.bind row inputs with
  | error failure => simp [bindRecord, hbind, bind, Except.bind, Except.mapError, Except.toOption]
  | ok values => simp [bindRecord, hbind, bind, Except.bind, Except.mapError, Except.toOption]

variable (plan lookup)

/-- Pushes one write after the other, up to the first failure. -/
def writeAll (row : Row) (inputs : List BindInputs) : RowOutcome :=
  let outcome := runAll (writeRow plan lookup row) inputs
  { pushed := outcome.1, error := outcome.2 }

/-- The inputs of the writes of one row: one for each exploded entry, or one for the row itself. -/
def bindInputs (key : PrimaryKey) (inputs : RowInputs) : List BindInputs :=
  let base : BindInputs := {
    ttl := inputs.ttl
    writetime := inputs.writetime
    extractedJson := inputs.extracted.join
    key := some key }
  match inputs.entries with
  | some entries => entries.map fun entry =>
      { base with explodeKey := entry.key, explodeValue := entry.value }
  | none => [base]

variable [LiteralParsers] [SerdeJson]

/-- One row: filter, explode, bind, write. -/
def processRow (row : Row) : RowOutcome :=
  if !plan.needsRecord then writeAll plan lookup row [{}]
  else
    let record := materialise row plan.projectionWidth plan.originKeyIndices
    match classify plan.features record with
    | .error e => { error := some (.record e) }
    | .ok .skipped => { skipped := true }
    | .ok (.write inputs) => writeAll plan lookup record.origin (bindInputs record.key inputs)

end

end MigrateJob

/-! ### A regular column that becomes a key column -/

namespace MigrateSample

local instance : AlphanumericTable := AlphanumericTable.ascii

def origin : TableSchema where
  keyspace := "ks"
  table := "src"
  columns := [⟨"id", "int", .partitionKey, 0⟩, ⟨"code", "int", .regular, -1⟩]
  nodup := by decide

/-- The target is clustered by the origin's regular column. -/
def target : TableSchema where
  keyspace := "ks"
  table := "dst"
  columns := [⟨"id", "int", .partitionKey, 0⟩, ⟨"code", "int", .clustering, 0⟩]
  nodup := by decide

def mapping : ColumnMapping where
  originColumns := origin.columns
  sources := [.origin 0, .origin 1]
  originTable := origin
  targetTable := target
  length_sources := by decide
  originIndex_lt := by decide
  key_derivable := by decide

def planner : Planner := ⟨⟨[]⟩, false⟩

def projection : OriginProjection := OriginProjection.new origin.columns []

def plan : MigratePlan where
  binder := {
    statement := {
      cql := "INSERT INTO ks.dst (id,code) VALUES (?,?)"
      counter := false
      usingClause := ⟨false, false⟩
      slots := [.column 0, .column 1] }
    columns := [⟨"id", .primitive .int, "int", .passthrough, .origin 0, true⟩,
      ⟨"code", .primitive .int, "int", .passthrough, .origin 1, true⟩]
    missingKey := {}
    mapRemoveNullValue := false }
  keyBinding := [0, 1]
  counters := ⟨[]⟩
  originKeyIndices := [0]
  projectionWidth := 2
  features := {}
  needsRecord := false

theorem resolved : MigratePlan.resolve mapping projection planner {} false {} = .ok plan := rfl

end MigrateSample

end Cdm
