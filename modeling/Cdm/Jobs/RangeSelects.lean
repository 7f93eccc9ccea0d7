import Cdm.Cql.RangeSelect
import Cdm.Feature.CqlWhere
import Cdm.Jobs.Build

/-!
# The range selects of the jobs

Migrate, validate and guardrail each prepare a scan of the origin, and each of them hands the
condition of the operator to `OriginRangeSelect.new` as it is configured.  The scan expects the
fragment of the condition, with its conjunction: a condition that does not start with `AND` itself
comes behind the second bound without one.
-/

namespace Cdm

open Text
open Fallible

theorem append_condition_inj {bounded condition condition' allow : String} :
    bounded ++ (condition ++ allow) = bounded ++ (condition' ++ allow) ↔
      condition = condition' := by
  rw [← String.toList_inj, ← String.toList_inj]
  simp only [String.toList_append, List.append_cancel_left_eq, List.append_cancel_right_eq]

section

variable [AlphanumericTable]

/-- The statements of a run, generated from the projection the job reads. -/
def ResolvedTables.statements (tables : ResolvedTables) (projection : OriginProjection)
    (options : UsingClause) (whereClause : Option String) : Except CdmError StatementSet := do
  let targetSelect ← TargetSelectByPk.new tables.mapping
  let upsert ← TargetUpsert.new tables.mapping options
  let origin := tables.mapping.originTable
  return {
    originRangeSelect := (OriginRangeSelect.new origin projection whereClause false).cql
    originSelectByPk := (OriginSelectByPk.new origin projection).cql
    targetSelectByPk := targetSelect.cql
    targetUpsert := upsert.cql }

/-- The origin table alone, for the job that must not reach a target. -/
structure ResolvedOrigin where
  origin : TableSchema
  /-- The columns the range scan selects. -/
  projection : OriginProjection
  facts : TableFacts

/-- Resolves the origin table.  The guardrail measures every column. -/
def ResolvedOrigin.introspect (origin : TableSchema) : Except CdmError ResolvedOrigin := do
  let facts ← TableFacts.ofColumns origin origin.columns
  return { origin, projection := OriginProjection.new origin.columns [], facts }

namespace Build

section

variable (tables : ResolvedTables) (config : RunConfig) (cqlWhere : Option String)

/-- The statements of the migrate job. -/
def migrateStatements (planner : Planner) : Except CdmError StatementSet := do
  let features ← migrateFeatures tables config planner
  tables.statements (projection tables features.writetime) features.writetime.usingClause cqlWhere

/-- The scan of the validate job. -/
def validateRangeSelect : Except CdmError OriginRangeSelect := do
  let writetime ← writetimeTtl tables config
  let _ ← TargetSelectByPk.new tables.mapping
  return OriginRangeSelect.new tables.mapping.originTable (projection tables writetime) cqlWhere
    false

end

/-- The scan of the guardrail job. -/
def guardrailRangeSelect (origin : ResolvedOrigin) (cqlWhere : Option String) :
    OriginRangeSelect :=
  OriginRangeSelect.new origin.origin origin.projection cqlWhere false

end Build

/-- A scan that a job prepares under a condition: the table, the projection and the text. -/
inductive PreparedSelect (cqlWhere : Option String) :
    TableSchema → OriginProjection → String → Prop
  | migrate {tables : ResolvedTables} {config : RunConfig} {planner : Planner}
      {features : MigrateFeatures} {set : StatementSet}
      (hfeatures : Build.migrateFeatures tables config planner = .ok features)
      (h : Build.migrateStatements tables config cqlWhere planner = .ok set) :
      PreparedSelect cqlWhere tables.mapping.originTable
        (Build.projection tables features.writetime) set.originRangeSelect
  | validate {tables : ResolvedTables} {config : RunConfig} {writetime : WritetimeTtlPlan}
      {select : OriginRangeSelect} (hwritetime : Build.writetimeTtl tables config = .ok writetime)
      (h : Build.validateRangeSelect tables config cqlWhere = .ok select) :
      PreparedSelect cqlWhere tables.mapping.originTable (Build.projection tables writetime)
        select.cql
  | guardrail {table : TableSchema} {origin : ResolvedOrigin}
      (horigin : ResolvedOrigin.introspect table = .ok origin) :
      PreparedSelect cqlWhere table (OriginProjection.new table.columns [])
        (Build.guardrailRangeSelect origin cqlWhere).cql

/-- The permission to filter, for a condition that is not blank. -/
def allowFiltering (cqlWhere : Option String) : String :=
  if (CqlWhereFilter.load cqlWhere).isEnabled then " ALLOW FILTERING" else ""

/-- **The filter is a conjunct**: the fragment of the condition comes behind the second bound, with
one conjunction, and nothing comes there without a condition. -/
structure FilterIsConjunct (cqlWhere : Option String) (table : TableSchema)
    (projection : OriginProjection) (cql : String) : Prop where
  text : cql = OriginRangeSelect.bounded table projection ++
    ((CqlWhereFilter.load cqlWhere).fragment ++ allowFiltering cqlWhere)
  conjunct : ∀ raw, cqlWhere = some raw → trim raw.toList ≠ [] →
    CqlWhereFilter.IsConjunct (trim raw.toList) (CqlWhereFilter.load cqlWhere).fragment.toList
  bounded : cqlWhere = none → cql = OriginRangeSelect.bounded table projection

namespace PreparedSelect

variable {cqlWhere : Option String} {table : TableSchema} {projection : OriginProjection}
  {cql : String}

/-- Every job builds its scan from the condition as it is configured. -/
theorem eq_new (h : PreparedSelect cqlWhere table projection cql) :
    cql = (OriginRangeSelect.new table projection cqlWhere false).cql := by
  cases h with
  | migrate hfeatures h =>
    obtain ⟨features, hsame, h⟩ := bind_eq_ok.1 h
    obtain rfl := Except.ok.inj (hfeatures.symm.trans hsame)
    obtain ⟨targetSelect, -, h⟩ := bind_eq_ok.1 h
    obtain ⟨upsert, -, h⟩ := bind_eq_ok.1 h
    cases h
    rfl
  | validate hwritetime h =>
    obtain ⟨writetime, hsame, h⟩ := bind_eq_ok.1 h
    obtain rfl := Except.ok.inj (hwritetime.symm.trans hsame)
    obtain ⟨targetSelect, -, h⟩ := bind_eq_ok.1 h
    cases h
    rfl
  | guardrail horigin =>
    obtain ⟨facts, -, h⟩ := bind_eq_ok.1 horigin
    cases h
    rfl

/-- **The configured condition** comes behind the second bound, and the permission to filter if the
condition is not blank. -/
theorem cql_eq (h : PreparedSelect cqlWhere table projection cql) :
    cql = OriginRangeSelect.bounded table projection ++
      (cqlWhere.getD "" ++ allowFiltering cqlWhere) := by
  rw [h.eq_new, OriginRangeSelect.cql_new]
  cases cqlWhere with
  | none => rfl
  | some raw =>
    have henabled : (false || !(trim raw.toList).isEmpty) =
        (CqlWhereFilter.load (some raw)).isEnabled := by
      rw [Bool.eq_iff_iff, CqlWhereFilter.isEnabled_load]
      simp
    rw [Option.getD_some, henabled, allowFiltering]

/-- A condition that is blank or starts with the conjunction is the condition that its fragment
is, but for white space. -/
theorem exists_condition_iff (h : PreparedSelect cqlWhere table projection cql) :
    (∃ condition, cql = OriginRangeSelect.bounded table projection ++
        (condition ++ allowFiltering cqlWhere) ∧
      trim condition.toList = trim (CqlWhereFilter.load cqlWhere).fragment.toList) ↔
    ∀ raw, cqlWhere = some raw →
      trim raw.toList = [] ∨ startsWithAnd (trim raw.toList) = true := by
  have honly : (∃ condition, cql = OriginRangeSelect.bounded table projection ++
        (condition ++ allowFiltering cqlWhere) ∧
      trim condition.toList = trim (CqlWhereFilter.load cqlWhere).fragment.toList) ↔
      trim (cqlWhere.getD "").toList =
        trim (CqlWhereFilter.load cqlWhere).fragment.toList := by
    constructor
    · rintro ⟨condition, hcql, htrim⟩
      rw [h.cql_eq, append_condition_inj] at hcql
      rwa [hcql]
    · exact fun htrim => ⟨cqlWhere.getD "", h.cql_eq, htrim⟩
  rw [honly]
  cases cqlWhere with
  | none => exact ⟨fun _ _ h => (Option.some_ne_none _ h.symm).elim, fun _ => rfl⟩
  | some raw =>
    rw [Option.getD_some, eq_comm, CqlWhereFilter.trim_eq_trim_fragment_iff]
    exact ⟨fun h _ hraw => Option.some.inj hraw ▸ h, fun h => h raw rfl⟩

/-- **The filter of the prepared select is a conjunct** exactly for no condition, and for one that
starts with a blank and the conjunction and does not end with white space.  But for white space,
the select is the one of the fragment exactly for the conditions that start with the
conjunction. -/
theorem filterIsConjunct_iff (h : PreparedSelect cqlWhere table projection cql) :
    (FilterIsConjunct cqlWhere table projection cql ↔
      ∀ raw, cqlWhere = some raw → raw = "" ∨
        startsWithAnd (trim raw.toList) = true ∧ raw.toList = ' ' :: trim raw.toList) ∧
    ((∃ condition, cql = OriginRangeSelect.bounded table projection ++
        (condition ++ allowFiltering cqlWhere) ∧
      trim condition.toList = trim (CqlWhereFilter.load cqlWhere).fragment.toList) ↔
      ∀ raw, cqlWhere = some raw →
        trim raw.toList = [] ∨ startsWithAnd (trim raw.toList) = true) := by
  refine ⟨?_, h.exists_condition_iff⟩
  have htext := h.cql_eq
  constructor
  · rintro hfilter raw rfl
    have hsame := hfilter.text
    rw [htext, append_condition_inj] at hsame
    exact CqlWhereFilter.eq_fragment_iff.1 hsame
  · intro hraw
    refine ⟨?_, ?_, ?_⟩
    · rw [htext, append_condition_inj]
      cases cqlWhere with
      | none => rfl
      | some raw => exact CqlWhereFilter.eq_fragment_iff.2 (hraw raw rfl)
    · rintro raw rfl hne
      exact CqlWhereFilter.conjunct_fragment hne
    · rintro rfl
      rw [htext]
      exact String.append_empty

end PreparedSelect

end

/-! ### A guardrail run over one table -/

namespace RangeSelectSample

local instance : AlphanumericTable := AlphanumericTable.ascii

def table : TableSchema where
  keyspace := "ks"
  table := "t"
  columns := [⟨"id", "int", .partitionKey, 0⟩, ⟨"status", "text", .regular, -1⟩]
  nodup := by decide

def projection : OriginProjection := OriginProjection.new table.columns []

def facts : TableFacts :=
  ⟨⟨"ks", "t"⟩, [⟨"id", .primitive .int, true⟩, ⟨"status", .primitive .text, false⟩]⟩

def origin : ResolvedOrigin := ⟨table, projection, facts⟩

theorem introspect_eq : ResolvedOrigin.introspect table = .ok origin := by
  have hint : CqlTypeInfo.parse "int" = .ok (.primitive .int) := by decide
  have htext : CqlTypeInfo.parse "text" = .ok (.primitive .text) := by decide
  have hid : TableFacts.factsOf table ⟨"id", "int", .partitionKey, 0⟩ =
      .ok ⟨"id", .primitive .int, true⟩ := by
    rw [TableFacts.factsOf, hint]
    rfl
  have hstatus : TableFacts.factsOf table ⟨"status", "text", .regular, -1⟩ =
      .ok ⟨"status", .primitive .text, false⟩ := by
    rw [TableFacts.factsOf, htext]
    rfl
  have hcolumns : table.columns.mapM (TableFacts.factsOf table) = .ok facts.columns :=
    mapM_eq_ok_iff.2 (.cons hid (.cons hstatus .nil))
  have hfacts : TableFacts.ofColumns table table.columns = .ok facts :=
    bind_eq_ok.2 ⟨_, hcolumns, by rfl⟩
  exact bind_eq_ok.2 ⟨_, hfacts, rfl⟩

/-- The scan of a guardrail run. -/
def cql (cqlWhere : Option String) : String := (Build.guardrailRangeSelect origin cqlWhere).cql

theorem prepared (cqlWhere : Option String) :
    PreparedSelect cqlWhere table projection (cql cqlWhere) :=
  PreparedSelect.guardrail introspect_eq

/-- A condition with its conjunction, behind one blank, is a conjunct. -/
theorem filterIsConjunct_and :
    FilterIsConjunct (some " AND status = 'a'") table projection
      (cql (some " AND status = 'a'")) := by
  refine (PreparedSelect.filterIsConjunct_iff (prepared _)).1.2 ?_
  rintro raw ⟨⟩
  exact .inr (by decide)

/-- A condition without its conjunction is not. -/
theorem not_filterIsConjunct :
    ¬ ∀ [AlphanumericTable] (cqlWhere : Option String) (table : TableSchema)
      (projection : OriginProjection) (cql : String),
      PreparedSelect cqlWhere table projection cql →
        FilterIsConjunct cqlWhere table projection cql := by
  intro h
  have htext := (h _ _ _ _ (prepared (some "status = 'a'"))).text
  revert htext
  decide

end RangeSelectSample

end Cdm
