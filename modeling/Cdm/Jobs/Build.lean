import Cdm.Jobs.Validate

/-!
# Building the jobs of a run

Both jobs of a run are built from one configuration and one pair of resolved tables: the mapping, the
conversion planner, the policy for missing keys and the TTL/writetime plan are the same on both
sides.
-/

namespace Cdm

/-- The configuration of a run, as far as the jobs read it. -/
structure RunConfig where
  rename : List String := []
  skip : List String := []
  /-- Constant columns as target column and CQL literal. -/
  constants : List (String × String) := []
  explodeMap : ExplodeMap
  extractJson : ExtractJson
  writetimeTtl : WritetimeTtl
  missingKeyPolicy : MissingKeyPolicy
  mapRemoveNullValue : Bool
  autocorrect : Autocorrect
  keysOnly : Bool
  /-- The row-level filters of a migrate run. -/
  migrateFilters : List Filter := []
  /-- The row-level filters of a validate run. -/
  validateFilters : List Filter := []

/-- The mapping inputs of a configuration. -/
def RunConfig.mappingOptions (config : RunConfig) : MappingOptions where
  rename := config.rename
  skip := config.skip
  constants := config.constants
  explodeMap :=
    if config.explodeMap.isEnabled then
      some (config.explodeMap.origin, config.explodeMap.key, config.explodeMap.value)
    else none
  extractJson :=
    if config.extractJson.isEnabled then
      some (config.extractJson.originColumn, config.extractJson.targetColumn)
    else none

/-- The tables of a run, resolved. -/
structure ResolvedTables where
  mapping : ColumnMapping
  features : FeatureSchema

/-- Resolves the mapping and the facts of both tables.  The facts of the origin are those of the
columns the run reads. -/
def ResolvedTables.introspect [AlphanumericTable] (origin target : TableSchema)
    (config : RunConfig) : Except CdmError ResolvedTables := do
  let targetFacts ← TableFacts.ofColumns target target.columns
  let mapping ← ColumnMapping.resolve origin target config.mappingOptions
  let originFacts ← TableFacts.ofColumns origin mapping.originColumns
  return { mapping, features := ⟨originFacts, targetFacts⟩ }

/-- The facts of the origin are those of the columns the run reads. -/
theorem ResolvedTables.facts_of_introspect [AlphanumericTable] {origin target : TableSchema}
    {config : RunConfig} {tables : ResolvedTables}
    (h : introspect origin target config = .ok tables) :
    TableFacts.ofColumns origin tables.mapping.originColumns = .ok tables.features.origin := by
  obtain ⟨targetFacts, -, h⟩ := Fallible.bind_eq_ok.1 h
  obtain ⟨mapping, -, h⟩ := Fallible.bind_eq_ok.1 h
  obtain ⟨originFacts, hfacts, h⟩ := Fallible.bind_eq_ok.1 h
  cases h
  exact hfacts

/-- A resolved TTL/writetime plan as the row sink's per-row stamp. -/
def planTimestamps (plan : WritetimeTtlPlan) : RowTimestamps := ⟨plan.ttl, plan.writetime⟩

namespace Build

variable (tables : ResolvedTables) (config : RunConfig) (planner : Planner)

/-- The TTL and writetime plan a run resolves, whichever job is running.  A counter table on either
side disables it. -/
def writetimeTtl : Except CdmError WritetimeTtlPlan :=
  if tables.mapping.targetIsCounter || tables.features.origin.isCounterTable then .ok {}
  else config.writetimeTtl.resolve tables.features.origin

/-- The explode plan, when the feature is configured. -/
def explode : Except CdmError (Option ExplodePlan) :=
  if config.explodeMap.isEnabled then
    (config.explodeMap.resolve tables.features planner).map some
  else .ok none

/-- The extract-JSON plan, when the feature is configured. -/
def extractJson : Except CdmError (Option ExtractJsonPlan) :=
  if config.extractJson.isEnabled then (config.extractJson.resolve tables.features).map some
  else .ok none

/-- The columns both jobs read, with the expressions of the TTL/writetime plan behind them. -/
def projection (writetime : WritetimeTtlPlan) : OriginProjection :=
  OriginProjection.new tables.mapping.originColumns writetime.projection

/-- The features a migrate run switches on. -/
def migrateFeatures : Except CdmError MigrateFeatures := do
  let writetime ← writetimeTtl tables config
  let explode ← explode tables config planner
  let extractJson ← extractJson tables config
  return { filters := config.migrateFilters, writetime, explode, extractJson }

variable [AlphanumericTable]

/-- Builds the migrate job. -/
def migrate : Except CdmError MigratePlan := do
  let features ← migrateFeatures tables config planner
  MigratePlan.resolve tables.mapping (projection tables features.writetime) planner
    config.missingKeyPolicy config.mapRemoveNullValue features

/-- Builds the validate job. -/
def validate : Except CdmError ValidateJob := do
  let writetime ← writetimeTtl tables config
  let targetSelect ← TargetSelectByPk.new tables.mapping
  let keys ← TargetKeyPlan.resolve tables.mapping targetSelect config.missingKeyPolicy
  let upsert ← TargetUpsert.new tables.mapping writetime.usingClause
  let binder ← Binder.new tables.mapping upsert planner config.missingKeyPolicy
    config.mapRemoveNullValue
  let extractJson ← extractJson tables config
  let plan ← ComparisonPlan.resolve tables.mapping planner extractJson config.extractJson.overwrite
  let explode ← explode tables config planner
  return {
    keys
    target := CqlRowSink.prepare binder tables.mapping (some (planTimestamps writetime))
    plan := plan.withKeysOnly config.keysOnly
    filters := config.validateFilters
    explode := explode.map fun plan => ⟨plan, keys⟩
    settings := ⟨config.autocorrect, tables.mapping.targetIsCounter⟩ }

end Build

end Cdm
