import Cdm.Cql.Applied
import Cdm.Feature.ExtractSettings
import Cdm.Jobs.Correction
import Cdm.Jobs.Positions

/-!
# The extract column after a migration

The property of a document is written to the extract column.  Whether it may replace what the column
holds, and which other columns the run may write, is decided by two settings; the job looks at
neither.  The extraction tells a path that addresses nothing from a JSON null, and the bind does
not: both leave the column as it is.
-/

namespace Cdm

open Fallible

namespace MigrateJob

section

variable [LiteralParsers] [SerdeJson] (plan : MigratePlan)
  (lookup : BoundWrite → Except CdmError (Option Row))

/-- The row that is bound: the row itself, or the one with the deltas of its counters. -/
def BoundFrom (row : Row) (inputs : BindInputs) (source : Row) : Prop :=
  if plan.isCounterRun then
    ∃ key current deltas,
      plan.binder.bindKey plan.keyBinding (materialiseRow row plan.projectionWidth) inputs =
        .ok key ∧
      lookup key = .ok current ∧
      plan.counters.deltas (materialiseRow row plan.projectionWidth) current = .ok deltas ∧
      source = CounterPlan.deltaRow (materialiseRow row plan.projectionWidth) deltas
  else source = row

/-- A write that a row makes, with the inputs and the row it is bound from. -/
structure Pushes (row : Row) (inputs : BindInputs) (source : Row) (values : BoundWrite) :
    Prop where
  classified : ∃ rowInputs, classify plan.features
      (materialise row plan.projectionWidth plan.originKeyIndices) = .ok (.write rowInputs) ∧
    inputs ∈ bindInputs (materialise row plan.projectionWidth plan.originKeyIndices).key rowInputs
  boundFrom : BoundFrom plan lookup (materialiseRow row plan.projectionWidth) inputs source
  bound : plan.binder.bind source inputs = .ok values

variable {plan lookup}

omit [LiteralParsers] [SerdeJson] in
theorem writeRow_eq_ok {row : Row} {inputs : BindInputs} {values : BoundWrite}
    (h : writeRow plan lookup row inputs = .ok values) :
    ∃ source, BoundFrom plan lookup row inputs source ∧
      plan.binder.bind source inputs = .ok values := by
  rw [writeRow] at h
  split_ifs at h with hcounter hshape
  · obtain ⟨key, hkey, h⟩ := bind_eq_ok.1 h
    obtain ⟨current, hcurrent, h⟩ := bind_eq_ok.1 h
    obtain ⟨deltas, hdeltas, h⟩ := bind_eq_ok.1 h
    obtain ⟨bound, hbound, h⟩ := bind_eq_ok.1 h
    split_ifs at h
    cases h
    refine ⟨_, ?_, mapError_eq_ok.1 hbound⟩
    rw [BoundFrom, if_pos hcounter]
    exact ⟨key, current, deltas, mapError_eq_ok.1 hkey, mapError_eq_ok.1 hcurrent,
      mapError_eq_ok.1 hdeltas, rfl⟩
  rotate_left
  · obtain ⟨bound, hbound, h⟩ := bind_eq_ok.1 h
    cases h
    refine ⟨row, ?_, mapError_eq_ok.1 hbound⟩
    rw [BoundFrom, if_neg hcounter]
  · obtain ⟨bound, -, h⟩ := bind_eq_ok.1 h
    cases h

/-- Every write of a run that materialises its rows is bound from classified inputs. -/
theorem exists_pushes (hneeds : plan.needsRecord = true) {row : Row} {values : BoundWrite}
    (h : values ∈ (processRow plan lookup row).pushed) :
    ∃ inputs source, Pushes plan lookup row inputs source values := by
  rw [processRow, hneeds] at h
  dsimp only [Bool.not_true, Bool.false_eq_true, if_false] at h
  cases hclassify : classify plan.features
      (materialise row plan.projectionWidth plan.originKeyIndices) with
  | error e =>
    rw [hclassify] at h
    cases h
  | ok decision =>
    rw [hclassify] at h
    cases decision with
    | skipped => cases h
    | write rowInputs =>
      obtain ⟨inputs, hinputs, hvalues⟩ := mem_runAll h
      obtain ⟨source, hsource, hbind⟩ := writeRow_eq_ok hvalues
      exact ⟨inputs, source, ⟨rowInputs, hclassify, hinputs⟩, hsource, hbind⟩

omit [LiteralParsers] [SerdeJson] in
/-- A cell of the materialised row is the one of the row, or null. -/
theorem materialised_cell {row : Row} {width index : ℕ} {keys : List ℕ} {cell : RawCell}
    (h : (materialise row width keys).originCell index = .ok cell) :
    cell = (row.cells[index]?).join := by
  rw [Record.originCell] at h
  split at h
  · rename_i found hfound
    cases h
    have hcells : (List.range (max width row.cells.length)).map
        (fun index => (row.cells[index]?).join) = (materialise row width keys).origin.cells := rfl
    rw [← hcells, List.getElem?_map, Option.map_eq_some_iff] at hfound
    obtain ⟨position, hposition, rfl⟩ := hfound
    obtain ⟨hlt, hposition⟩ := List.getElem?_eq_some_iff.1 hposition
    rw [List.getElem_range] at hposition
    rw [hposition]
  · cases h

/-- The inputs of a write carry the bytes that were extracted from the document of the row. -/
theorem Pushes.extracted {row source : Row} {inputs : BindInputs} {values : BoundWrite}
    (h : Pushes plan lookup row inputs source values) {extract : ExtractJsonPlan}
    (hextract : plan.features.extractJson = some extract) :
    ∃ extracted, extract.extract ((row.cells[extract.originIndex]?).join) = .ok extracted ∧
      inputs.extractedJson = extracted.join := by
  obtain ⟨rowInputs, hclassify, hinputs⟩ := h.classified
  obtain ⟨accepted, -, hclassify⟩ := bind_eq_ok.1 hclassify
  split at hclassify
  · cases hclassify
  obtain ⟨ttl, -, hclassify⟩ := bind_eq_ok.1 hclassify
  obtain ⟨writetime, -, hclassify⟩ := bind_eq_ok.1 hclassify
  obtain ⟨extracted, hextracted, hclassify⟩ := bind_eq_ok.1 hclassify
  obtain ⟨entries, -, hclassify⟩ := bind_eq_ok.1 hclassify
  have hrow : rowInputs.extracted = extracted := by
    split at hclassify
    · cases hclassify
    · exact (congrArg RowInputs.extracted (RowDecision.write.inj (Except.ok.inj hclassify))).symm
  refine ⟨extracted, ?_, ?_⟩
  · rw [MigrateJob.extracted, hextract] at hextracted
    obtain ⟨cell, hcell, hextracted⟩ := bind_eq_ok.1 hextracted
    have hsame := materialised_cell hcell
    rw [← hsame]
    exact mapError_eq_ok.1 hextracted
  · rw [← hrow]
    unfold bindInputs at hinputs
    split at hinputs
    · obtain ⟨entry, -, rfl⟩ := List.mem_map.1 hinputs
      rfl
    · obtain rfl := List.mem_singleton.1 hinputs
      rfl

end

end MigrateJob

/-- The statement, the binder and the extraction of a migrate job. -/
theorem Build.migrate_eq_ok [AlphanumericTable] {config : RunConfig} {tables : ResolvedTables}
    {planner : Planner} {plan : MigratePlan} (h : migrate tables config planner = .ok plan) :
    ∃ upsert, TargetUpsert.new tables.mapping plan.features.writetime.usingClause = .ok upsert ∧
      Binder.new tables.mapping upsert planner config.missingKeyPolicy config.mapRemoveNullValue =
        .ok plan.binder ∧
      extractJson tables config = .ok plan.features.extractJson ∧
      plan.needsRecord = plan.features.needsRecord := by
  obtain ⟨features, hfeatures, h⟩ := bind_eq_ok.1 h
  have hneeds := MigratePlan.needsRecord_of_resolve h
  have hsame : plan.features = features := by
    obtain ⟨upsert, -, h⟩ := bind_eq_ok.1 h
    obtain ⟨binder, -, h⟩ := bind_eq_ok.1 h
    obtain ⟨select, -, h⟩ := bind_eq_ok.1 h
    obtain ⟨binding, -, h⟩ := bind_eq_ok.1 h
    obtain ⟨counters, -, h⟩ := bind_eq_ok.1 h
    obtain ⟨indices, -, h⟩ := bind_eq_ok.1 h
    cases h
    rfl
  subst hsame
  obtain ⟨upsert, hupsert, hbinder, -⟩ := MigratePlan.resolve_eq_ok h
  obtain ⟨writetime, -, hfeatures⟩ := bind_eq_ok.1 hfeatures
  obtain ⟨explode, -, hfeatures⟩ := bind_eq_ok.1 hfeatures
  obtain ⟨extract, hextract, hfeatures⟩ := bind_eq_ok.1 hfeatures
  refine ⟨upsert, hupsert, hbinder, ?_, hneeds⟩
  rw [← Except.ok.inj hfeatures]
  exact hextract

/-- The extract column has the type that the property is encoded for. -/
theorem Build.parse_extractColumn [AlphanumericTable] {origin target : TableSchema}
    {config : RunConfig} {tables : ResolvedTables}
    (htables : ResolvedTables.introspect origin target config = .ok tables)
    {extract : ExtractJsonPlan} (hextract : extractJson tables config = .ok (some extract))
    {index : ℕ} {column : ColumnMeta} (hcolumn : tables.mapping.targetColumns[index]? = some column)
    (hname : column.name = extract.targetColumn) :
    CqlTypeInfo.parse column.cqlType = .ok extract.targetType := by
  rw [extractJson] at hextract
  split at hextract
  rotate_left
  · cases hextract
  obtain ⟨found, hresolve, heq⟩ := map_eq_ok.1 hextract
  obtain rfl := Option.some.inj heq
  rw [ExtractJson.resolve] at hresolve
  split at hresolve
  · cases hresolve
  split at hresolve
  · cases hresolve
  rename_i facts hfacts
  cases hresolve
  obtain ⟨targetFacts, htargetFacts, htables⟩ := bind_eq_ok.1 htables
  obtain ⟨mapping, hmapping, htables⟩ := bind_eq_ok.1 htables
  obtain ⟨originFacts, -, htables⟩ := bind_eq_ok.1 htables
  cases htables
  obtain ⟨renames, -, htarget, -⟩ := ColumnMapping.resolve_eq_ok hmapping
  obtain ⟨position, hposition⟩ := List.mem_iff_getElem?.1 (List.mem_of_find?_eq_some hfacts)
  obtain ⟨declared, hdeclared, hsame, hparse⟩ :=
    TableFacts.getElem?_ofColumns htargetFacts hposition
  have hnamed : facts.name = config.extractJson.targetColumn := by
    simpa using List.find?_some hfacts
  rw [← htarget] at hdeclared
  -- the columns of a table have different names
  have hindex := ColumnMapping.findIdx?_name hcolumn
  rw [hname, ← hnamed, hsame, ColumnMapping.findIdx?_name hdeclared] at hindex
  obtain rfl := Option.some.inj hindex
  cases hdeclared.symm.trans hcolumn
  exact hparse

/-! ### What a write does to the target row -/

section

variable [LiteralParsers] [SerdeJson] (mapping : ColumnMapping) (plan : MigratePlan)
  (extract : ExtractJsonPlan) (exclusive : Bool) (literals current : ℕ → RawCell)

/-- **The target row after a write is what the settings ask for**: the extract column holds what
the extraction says, and with `exclusive` no other column changes that is not part of the key. -/
structure ExtractWritten (value : Option JsonValue) (values : BoundWrite) : Prop where
  extractColumn : ∀ index column, mapping.targetColumns[index]? = some column →
    column.name = extract.targetColumn → extract.Says (current index) value
      (plan.binder.cellAfter mapping literals current values index)
  otherColumns : exclusive = true → ∀ index column, mapping.targetColumns[index]? = some column →
    column.kind.isKey = false → column.name ≠ extract.targetColumn →
      plan.binder.cellAfter mapping literals current values index = current index

/-- The target column takes its value from the extraction, and is neither part of the key nor a
counter. -/
def TakesProperty (index : ℕ) (column : ColumnMeta) : Prop :=
  (∃ document, mapping.source index = some (.extractJson document)) ∧ column.kind.isKey = false ∧
    plan.binder.statement.adds mapping index = false

/-- **A write does no harm**: the extract column is free to be written or has nothing written to it,
and with `exclusive` what is supplied to the other columns is nothing, or what they hold. -/
structure ExtractHarmless (value : Option JsonValue) (source : Row) (inputs : BindInputs) :
    Prop where
  extractColumn : ∀ index column, mapping.targetColumns[index]? = some column →
    column.name = extract.targetColumn → TakesProperty mapping plan index column →
      extract.Harmless (current index) value
  /-- What is supplied to a key column, a counter, or a column that another source claims, leaves it
  as it is where the path addresses nothing, or the column is populated and not to be overwritten. -/
  claimedKept : ∀ index column, mapping.targetColumns[index]? = some column →
    column.name = extract.targetColumn → ¬ TakesProperty mapping plan index column →
      (value = none ∨ extract.overwrite = false ∧ current index ≠ none) →
        plan.binder.MakesAt mapping literals current source inputs index (current index)
  /-- And it makes of such a column the encoded property otherwise. -/
  claimedWritten : ∀ index column, mapping.targetColumns[index]? = some column →
    column.name = extract.targetColumn → ¬ TakesProperty mapping plan index column →
      ∀ property, value = some property → extract.overwrite = true ∨ current index = none →
        ∃ cell, property.encode extract.targetType = .ok cell ∧
          plan.binder.MakesAt mapping literals current source inputs index cell
  otherColumns : exclusive = true → ∀ index column, mapping.targetColumns[index]? = some column →
    column.kind.isKey = false → column.name ≠ extract.targetColumn →
      plan.binder.MakesAt mapping literals current source inputs index (current index)

end

namespace MigrateJob

variable [AlphanumericTable] [LiteralParsers] [SerdeJson] {origin target : TableSchema}
  {config : RunConfig} {tables : ResolvedTables} {planner : Planner} {plan : MigratePlan}
  {extract : ExtractJsonPlan} {literals current : ℕ → RawCell}
  (htables : ResolvedTables.introspect origin target config = .ok tables)
  (hplan : Build.migrate tables config planner = .ok plan)
  (hextract : plan.features.extractJson = some extract)

include htables hplan hextract

/-- A property is extracted for a column of a primitive type. -/
theorem exists_primitive {cell : RawCell} {extracted : Option RawCell}
    (hextracted : extract.extract cell = .ok extracted) {bytes : Bytes}
    (hbytes : extracted.join = some bytes) {index : ℕ} {column : ColumnMeta} {bind : ColumnBind}
    (hcolumn : tables.mapping.targetColumns[index]? = some column)
    (hname : column.name = extract.targetColumn)
    (hres : Binder.Resolves tables.mapping planner column index bind) :
    ∃ kind, bind.cqlType = .primitive kind := by
  obtain ⟨upsert, -, -, hfeature, -⟩ := Build.migrate_eq_ok hplan
  rw [hextract] at hfeature
  have htype := Build.parse_extractColumn htables hfeature hcolumn hname
  have hsame : extract.targetType = bind.cqlType :=
    Except.ok.inj (htype.symm.trans (mapError_eq_ok.1 hres.cqlType))
  rcases ExtractJsonPlan.extract_eq hextracted with ⟨-, rfl⟩ | ⟨value, out, -, hencode, rfl⟩
  · cases hbytes
  · obtain rfl : out = some bytes := hbytes
    have hnull : value ≠ .null := by
      rintro rfl
      cases hencode
    obtain ⟨_, kind, -, hkind⟩ := JsonValue.encode_eq_ok hencode hnull
    exact ⟨kind, hsame.symm.trans hkind⟩

/-- An extract column is set to the extracted bytes, and left where there are none. -/
theorem cellAfter_extract {lookup : BoundWrite → Except CdmError (Option Row)}
    {row source : Row} {inputs : BindInputs} {values : BoundWrite}
    (hpush : Pushes plan lookup row inputs source values) {extracted : Option RawCell}
    (hextracted : extract.extract ((row.cells[extract.originIndex]?).join) = .ok extracted)
    (hinputs : inputs.extractedJson = extracted.join) {index : ℕ} {column : ColumnMeta}
    (hcolumn : tables.mapping.targetColumns[index]? = some column)
    (hname : column.name = extract.targetColumn)
    (htakes : TakesProperty tables.mapping plan index column) :
    plan.binder.cellAfter tables.mapping literals current values index =
      extracted.join.or (current index) := by
  obtain ⟨upsert, hupsert, hbinder, -⟩ := Build.migrate_eq_ok hplan
  obtain ⟨⟨document, hsource⟩, hkey, hadds⟩ := htakes
  rw [Binder.cellAfter_eq_iff hupsert hbinder hpush.bound hcolumn, Binder.MakesAt,
    TargetUpsert.isConstant, hsource, if_neg (by simp [TargetSource.isConstant]), hadds]
  have hlt : index < plan.binder.columns.length := by
    rw [Binder.length_columns hbinder]
    exact (List.getElem?_eq_some_iff.1 hcolumn).1
  have hbind := List.getElem?_eq_getElem hlt
  obtain ⟨declared, hdeclared, hres⟩ := Binder.resolves_getElem? hbinder hbind
  cases hdeclared.symm.trans hcolumn
  refine ⟨_, hbind, ?_⟩
  generalize plan.binder.columns[index] = bind at *
  have hbindSource : bind.source = .extractJson document := by
    rw [hres.source, hsource, Option.getD_some]
  have hsupplied : bind.source.supplied source inputs = extracted.join := by
    rw [hbindSource, ← hinputs]
    rfl
  cases hjoin : extracted.join with
  | none =>
    -- a JSON null and a path that addresses nothing have come to the same
    rw [hjoin] at hsupplied
    exact .nothing hsupplied (hres.isKey.trans hkey)
  | some bytes =>
    rw [hjoin] at hsupplied
    obtain ⟨kind, hkind⟩ :=
      exists_primitive htables hplan hextract hextracted hjoin hcolumn hname hres
    exact Binder.Makes.of_primitive hres hkind (fun i hi => by cases hbindSource.symm.trans hi)
      hsupplied

/-- **A write does what the settings of the extraction ask for exactly where it does no harm**, for
every row, every write it makes, and whatever the target row holds. -/
theorem extractWritten_iff {lookup : BoundWrite → Except CdmError (Option Row)} {row : Row}
    {values : BoundWrite} (hvalues : values ∈ (processRow plan lookup row).pushed)
    (exclusive : Bool) :
    ∃ inputs source, Pushes plan lookup row inputs source values ∧
      (ExtractWritten tables.mapping plan extract exclusive literals current
          (extract.addressed ((row.cells[extract.originIndex]?).join)) values ↔
        ExtractHarmless tables.mapping plan extract exclusive literals current
          (extract.addressed ((row.cells[extract.originIndex]?).join)) source inputs) := by
  obtain ⟨upsert, hupsert, hbinder, -, hneeds⟩ := Build.migrate_eq_ok hplan
  have hrecord : plan.needsRecord = true := by
    rw [hneeds, MigrateFeatures.needsRecord, hextract]
    simp
  obtain ⟨inputs, source, hpush⟩ := exists_pushes hrecord hvalues
  obtain ⟨extracted, hextracted, hinputs⟩ := hpush.extracted hextract
  refine ⟨inputs, source, hpush, ?_⟩
  have hmakes {index : ℕ} {column : ColumnMeta} {after : RawCell}
      (hcolumn : tables.mapping.targetColumns[index]? = some column) :
      plan.binder.cellAfter tables.mapping literals current values index = after ↔
        plan.binder.MakesAt tables.mapping literals current source inputs index after :=
    Binder.cellAfter_eq_iff hupsert hbinder hpush.bound hcolumn
  have hasked {index : ℕ} {column : ColumnMeta}
      (hcolumn : tables.mapping.targetColumns[index]? = some column)
      (hname : column.name = extract.targetColumn)
      (htakes : TakesProperty tables.mapping plan index column) :
      extract.Says (current index) (extract.addressed ((row.cells[extract.originIndex]?).join))
          (plan.binder.cellAfter tables.mapping literals current values index) ↔
        extract.Harmless (current index)
          (extract.addressed ((row.cells[extract.originIndex]?).join)) := by
    rw [cellAfter_extract htables hplan hextract hpush hextracted hinputs hcolumn hname htakes]
    exact ExtractJsonPlan.says_iff hextracted
  constructor
  · rintro ⟨hextractColumn, hothers⟩
    have hsaid (index column) (hcolumn : tables.mapping.targetColumns[index]? = some column)
        (hname : column.name = extract.targetColumn) :=
      ExtractJsonPlan.says_iff_kept.1 (hextractColumn index column hcolumn hname)
    refine ⟨fun index column hcolumn hname htakes => ?_,
      fun index column hcolumn hname _ hkept => ?_,
      fun index column hcolumn hname _ property hproperty hwrites => ?_,
      fun hexclusive index column hcolumn hkey hname => ?_⟩
    · exact (hasked hcolumn hname htakes).1 (hextractColumn index column hcolumn hname)
    · exact (hmakes hcolumn).1 ((hsaid index column hcolumn hname).1 hkept)
    · exact ⟨_, (hsaid index column hcolumn hname).2 property hproperty hwrites,
        (hmakes hcolumn).1 rfl⟩
    · exact (hmakes hcolumn).1 (hothers hexclusive index column hcolumn hkey hname)
  · rintro ⟨hharmless, hkept, hwritten, hothers⟩
    refine ⟨fun index column hcolumn hname => ?_,
      fun hexclusive index column hcolumn hkey hname => ?_⟩
    · by_cases htakes : TakesProperty tables.mapping plan index column
      · exact (hasked hcolumn hname htakes).2 (hharmless index column hcolumn hname htakes)
      · refine ExtractJsonPlan.says_iff_kept.2 ⟨fun h => ?_, fun property hproperty hwrites => ?_⟩
        · exact (hmakes hcolumn).2 (hkept index column hcolumn hname htakes h)
        · obtain ⟨cell, hencode, hcell⟩ :=
            hwritten index column hcolumn hname htakes property hproperty hwrites
          rw [(hmakes hcolumn).2 hcell, hencode]
    · exact (hmakes hcolumn).2 (hothers hexclusive index column hcolumn hkey hname)

end MigrateJob

/-! ### A city that is overwritten

The document of the row names a city, and the settings do not ask for `overwrite`. -/

namespace CorrectionSample

local instance : AlphanumericTable := AlphanumericTable.ascii

attribute [local instance] LiteralParsers.rejecting instSerdeJson

/-- What the migration binds for the row. -/
def bound : BoundWrite := [.value [0, 0, 0, 1], .value "Rome".toUTF8.data.toList]

/-- The target row, with the city it holds. -/
def held (city : RawCell) : ℕ → RawCell
  | 0 => some [0, 0, 0, 1]
  | _ => city

theorem bound_mem : bound ∈ (MigrateJob.processRow plan (fun _ => .ok none) row).pushed := by
  have hpushed : (MigrateJob.processRow plan (fun _ => .ok none) row).pushed = [bound] := rfl
  rw [hpushed]
  exact List.mem_singleton_self _

/-- A column of the target. -/
theorem column_cases {index : ℕ} {column : ColumnMeta}
    (h : tables.mapping.targetColumns[index]? = some column) :
    index = 0 ∧ column = ⟨"id", "int", .partitionKey, 0⟩ ∨
      index = 1 ∧ column = ⟨"city", "text", .regular, 0⟩ := by
  match index, h with
  | 0, h => exact .inl ⟨rfl, (Option.some.inj h).symm⟩
  | 1, h => exact .inr ⟨rfl, (Option.some.inj h).symm⟩

/-- A city that is null is set. -/
theorem extractWritten_null :
    ExtractWritten tables.mapping plan extract true (fun _ => none) (held none)
      (extract.addressed ((row.cells[extract.originIndex]?).join)) bound := by
  have htables : ResolvedTables.introspect origin target config = .ok tables := rfl
  have hplan : Build.migrate tables config planner = .ok plan := rfl
  obtain ⟨inputs, source, -, hiff⟩ :=
    MigrateJob.extractWritten_iff htables hplan rfl bound_mem true
  -- the extract column takes its value from the extraction
  have htakes : ∀ index column, tables.mapping.targetColumns[index]? = some column →
      column.name = extract.targetColumn → TakesProperty tables.mapping plan index column := by
    intro index column hcolumn hname
    obtain ⟨rfl, rfl⟩ | ⟨rfl, rfl⟩ := column_cases hcolumn
    · exact absurd hname (by decide)
    · exact ⟨⟨1, rfl⟩, rfl, rfl⟩
  refine hiff.2 ⟨fun index column hcolumn hname htakes => ?_,
    fun index column hcolumn hname hnot => absurd (htakes index column hcolumn hname) hnot,
    fun index column hcolumn hname hnot => absurd (htakes index column hcolumn hname) hnot,
    fun _ index column hcolumn hkey hname => ?_⟩
  · obtain ⟨rfl, rfl⟩ | ⟨rfl, rfl⟩ := column_cases hcolumn
    · cases htakes.2.1
    · exact .inr (.inl rfl)
  · obtain ⟨rfl, rfl⟩ | ⟨rfl, rfl⟩ := column_cases hcolumn
    · cases hkey
    · exact absurd rfl hname

/-- A city that is there is overwritten. -/
theorem not_extractWritten :
    ¬ ∀ [AlphanumericTable] [LiteralParsers] [SerdeJson] (origin target : TableSchema)
      (config : RunConfig) (tables : ResolvedTables) (planner : Planner) (plan : MigratePlan)
      (extract : ExtractJsonPlan), ResolvedTables.introspect origin target config = .ok tables →
      Build.migrate tables config planner = .ok plan → plan.features.extractJson = some extract →
      ∀ (lookup : BoundWrite → Except CdmError (Option Row)) (row : Row)
        (values : BoundWrite), values ∈ (MigrateJob.processRow plan lookup row).pushed →
      ∀ (exclusive : Bool) (literals current : ℕ → RawCell),
        ExtractWritten tables.mapping plan extract exclusive literals current
          (extract.addressed ((row.cells[extract.originIndex]?).join)) values := by
  intro h
  have hwritten := h origin target config tables planner plan extract rfl rfl rfl _ row bound
    bound_mem false (fun _ => none) (held (some [76, 121, 111, 110]))
  have hasked := hwritten.extractColumn 1 _ rfl rfl
  have hafter : plan.binder.cellAfter tables.mapping (fun _ => none)
      (held (some [76, 121, 111, 110])) bound 1 = some [82, 111, 109, 101] := by decide
  rw [hafter] at hasked
  have hkeeps : (some [82, 111, 109, 101] : RawCell) = some [76, 121, 111, 110] := hasked
  revert hkeeps
  decide

end CorrectionSample

end Cdm
