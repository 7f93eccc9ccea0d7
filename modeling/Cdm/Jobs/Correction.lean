import Cdm.Jobs.Build

/-!
# A correction and a migration of the same row

A validate run that finds a record missing writes it through `CqlRowSink.write`; a migrate run writes
the same origin row through `MigrateJob.processRow`.  The two put the bind inputs together
separately: the one from the record the validator carries, the other from the decision of the
features.

They agree on the TTL, the writetime and the exploded entry.  They do not on the extracted JSON
property, which a correction never binds.
-/

namespace Cdm

open Fallible

namespace Build

variable [AlphanumericTable] {tables : ResolvedTables} {config : RunConfig} {planner : Planner}
  {plan : MigratePlan} {job : ValidateJob}

/-- What the two jobs of a run share. -/
structure Shared (tables : ResolvedTables) (config : RunConfig) (planner : Planner)
    (plan : MigratePlan) (job : ValidateJob) (select : TargetSelectByPk) (upsert : TargetUpsert) :
    Prop where
  writetime_eq : writetimeTtl tables config = .ok plan.features.writetime
  explode_eq : explode tables config planner = .ok plan.features.explode
  extractJson_eq : extractJson tables config = .ok plan.features.extractJson
  select_eq : TargetSelectByPk.new tables.mapping = .ok select
  upsert_eq : TargetUpsert.new tables.mapping plan.features.writetime.usingClause = .ok upsert
  binder_eq : Binder.new tables.mapping upsert planner config.missingKeyPolicy
    config.mapRemoveNullValue = .ok plan.binder
  counters_eq : CounterPlan.resolve tables.mapping = .ok plan.counters
  width_eq : plan.projectionWidth = (projection tables plan.features.writetime).width
  needsRecord_eq : plan.needsRecord = plan.features.needsRecord
  keys_eq : TargetKeyPlan.resolve tables.mapping select config.missingKeyPolicy = .ok job.keys
  target_eq : job.target = CqlRowSink.prepare plan.binder tables.mapping
    (some (planTimestamps plan.features.writetime))
  jobExplode_eq : job.explode = plan.features.explode.map fun explode => ⟨explode, job.keys⟩

theorem shared (hmigrate : migrate tables config planner = .ok plan)
    (hvalidate : validate tables config planner = .ok job) :
    ∃ select upsert, Shared tables config planner plan job select upsert := by
  obtain ⟨features, hfeatures, hmigrate⟩ := bind_eq_ok.1 hmigrate
  obtain ⟨writetime, hwritetime, hfeatures⟩ := bind_eq_ok.1 hfeatures
  obtain ⟨explode, hexplode, hfeatures⟩ := bind_eq_ok.1 hfeatures
  obtain ⟨extract, hextract, hfeatures⟩ := bind_eq_ok.1 hfeatures
  cases hfeatures
  obtain ⟨upsert, hupsert, hmigrate⟩ := bind_eq_ok.1 hmigrate
  obtain ⟨binder, hbinder, hmigrate⟩ := bind_eq_ok.1 hmigrate
  obtain ⟨select, hselect, hmigrate⟩ := bind_eq_ok.1 hmigrate
  obtain ⟨binding, hbinding, hmigrate⟩ := bind_eq_ok.1 hmigrate
  obtain ⟨counters, hcounters, hmigrate⟩ := bind_eq_ok.1 hmigrate
  obtain ⟨indices, hindices, hmigrate⟩ := bind_eq_ok.1 hmigrate
  cases hmigrate
  obtain ⟨_, hsame, hvalidate⟩ := bind_eq_ok.1 hvalidate
  cases hwritetime.symm.trans hsame
  obtain ⟨_, hsame, hvalidate⟩ := bind_eq_ok.1 hvalidate
  cases hselect.symm.trans hsame
  obtain ⟨keys, hkeys, hvalidate⟩ := bind_eq_ok.1 hvalidate
  obtain ⟨_, hsame, hvalidate⟩ := bind_eq_ok.1 hvalidate
  cases hupsert.symm.trans hsame
  obtain ⟨_, hsame, hvalidate⟩ := bind_eq_ok.1 hvalidate
  cases hbinder.symm.trans hsame
  obtain ⟨_, hsame, hvalidate⟩ := bind_eq_ok.1 hvalidate
  cases hextract.symm.trans hsame
  obtain ⟨comparison, hcomparison, hvalidate⟩ := bind_eq_ok.1 hvalidate
  obtain ⟨_, hsame, hvalidate⟩ := bind_eq_ok.1 hvalidate
  cases hexplode.symm.trans hsame
  cases hvalidate
  exact ⟨select, upsert, ⟨hwritetime, hexplode, hextract, hselect, hupsert, hbinder, hcounters, rfl, rfl,
    hkeys, rfl, rfl⟩⟩

end Build

/-! ### What both jobs write for a row -/

/-- The entries a row stands for: those of its map, or the row itself. -/
def entriesOf (explode : Option ExplodePlan) (row : Row) :
    Except CdmError (List (Option ExplodedEntry)) :=
  match explode with
  | none => .ok [none]
  | some plan => (plan.explode (TargetKeyPlan.cellAt row plan.originIndex)).map (List.map some)

/-- The inputs the two jobs have in common. -/
def entryInputs (ttl writetime : Option ℤ) (entry : Option ExplodedEntry) : BindInputs where
  ttl
  writetime
  explodeKey := entry.bind ExplodedEntry.key
  explodeValue := entry.bind ExplodedEntry.value

/-- The bytes of the extracted property, when there are any. -/
def extractedOf [LiteralParsers] [SerdeJson] (extractJson : Option ExtractJsonPlan) (row : Row) :
    Except CdmError (Option Bytes) :=
  match extractJson with
  | none => .ok none
  | some plan => (plan.extract (TargetKeyPlan.cellAt row plan.originIndex)).map Option.join

theorem originCell_eq {record : Record} {index : ℕ} (h : index < record.origin.cells.length) :
    record.originCell index = .ok (TargetKeyPlan.cellAt record.origin index) := by
  rw [Record.originCell, TargetKeyPlan.cellAt, List.getElem?_eq_getElem h]
  rfl

theorem ExplodePlan.explodeRecord_eq {plan : ExplodePlan} {record : Record}
    (h : plan.originIndex < record.origin.cells.length) :
    plan.explodeRecord record =
      plan.explode (TargetKeyPlan.cellAt record.origin plan.originIndex) := by
  rw [explodeRecord, originCell_eq h]
  rfl

theorem ExtractJsonPlan.extractRecord_eq [LiteralParsers] [SerdeJson] {plan : ExtractJsonPlan}
    {record : Record} (h : plan.originIndex < record.origin.cells.length) :
    plan.extractRecord record =
      (plan.extract (TargetKeyPlan.cellAt record.origin plan.originIndex)).mapError
        fun e => e.withPrimaryKey record.key := by
  rw [extractRecord, originCell_eq h]
  rfl

/-- Migrate extracts from the row, or both fail. -/
theorem extracted_cases [LiteralParsers] [SerdeJson] {features : MigrateFeatures} {record : Record}
    (h : ∀ extract ∈ features.extractJson, extract.originIndex < record.origin.cells.length) :
    (∃ e e', MigrateJob.extracted features record = .error e ∧
        extractedOf features.extractJson record.origin = .error e') ∨
      ∃ x, MigrateJob.extracted features record = .ok x ∧
        extractedOf features.extractJson record.origin = .ok x.join := by
  unfold MigrateJob.extracted extractedOf
  cases hplan : features.extractJson with
  | none => exact .inr ⟨none, rfl, rfl⟩
  | some plan =>
    simp only [ExtractJsonPlan.extractRecord_eq (h plan hplan)]
    cases plan.extract (TargetKeyPlan.cellAt record.origin plan.originIndex) with
    | error e => exact .inl ⟨_, e, rfl, rfl⟩
    | ok x => exact .inr ⟨x, rfl, rfl⟩

/-- Migrate explodes the map of the row, or both fail. -/
theorem entries_cases {features : MigrateFeatures} {record : Record}
    (h : ∀ explode ∈ features.explode, explode.originIndex < record.origin.cells.length) :
    (∃ e, MigrateJob.entries features record = .error e ∧
        entriesOf features.explode record.origin = .error e) ∨
      ∃ entries, MigrateJob.entries features record = .ok entries ∧
        entriesOf features.explode record.origin = .ok (entries.elim [none] (List.map some)) := by
  unfold MigrateJob.entries entriesOf
  cases hplan : features.explode with
  | none => exact .inr ⟨none, rfl, rfl⟩
  | some plan =>
    simp only [ExplodePlan.explodeRecord_eq (h plan hplan)]
    cases plan.explode (TargetKeyPlan.cellAt record.origin plan.originIndex) with
    | error e => exact .inl ⟨e, rfl, rfl⟩
    | ok entries => exact .inr ⟨some entries, rfl, rfl⟩

/-- What is written for a row whose inputs are given, or could not be had. -/
def writesOf (binder : Binder) (row : Row) (inputs : Except CdmError (List BindInputs)) :
    List BoundWrite × Bool :=
  match inputs with
  | .error _ => ([], true)
  | .ok inputs =>
    ((runAll (binder.bind row) inputs).1, (runAll (binder.bind row) inputs).2.isSome)

/-- The records of one origin row, none of which is on the target, corrected one after the other: the
parameters that are written, and the failure that ends it. -/
def ValidateJob.correctMissing (job : ValidateJob) (row : Row) :
    List BoundWrite × Option CdmError :=
  match job.enqueueLookups (job.keys.scanRecord row) with
  | .error e => ([], some e)
  | .ok records => runAll job.target.write records

/-- The write of one entry of a row, as a correction makes it. -/
def correctEntry (plan : MigratePlan) (row : Row) (entry : Option ExplodedEntry) :
    Except CdmError BoundWrite := do
  let ttl ← plan.features.writetime.ttl row
  let writetime ← plan.features.writetime.writetime row
  (plan.binder.bind row (entryInputs ttl writetime entry)).mapError BindFailure.toError

namespace Build.Shared

variable [AlphanumericTable] {tables : ResolvedTables} {config : RunConfig} {planner : Planner}
  {plan : MigratePlan} {job : ValidateJob} {select : TargetSelectByPk} {upsert : TargetUpsert}
  (h : Shared tables config planner plan job select upsert)

include h

section Insert

variable (hcounter : tables.mapping.targetIsCounter = false)

include hcounter

/-- The write of a target without counters is an `INSERT`. -/
theorem upsert_eq_insert :
    upsert = TargetUpsert.insert tables.mapping plan.features.writetime.usingClause := by
  have hnew := h.upsert_eq
  rw [TargetUpsert.new, hcounter] at hnew
  exact (Except.ok.inj hnew).symm

theorem counter_eq_false : plan.binder.statement.counter = false := by
  rw [(Binder.new_eq_ok h.binder_eq).2.1, h.upsert_eq_insert hcounter]
  rfl

/-- Pushing rows that are bound one after the other. -/
theorem writeAll_eq (lookup : BoundWrite → Except CdmError (Option Row)) (row : Row)
    (inputs : List BindInputs) (key : Option PrimaryKey) :
    ((MigrateJob.writeAll plan lookup row (inputs.map fun i => { i with key })).pushed,
        (MigrateJob.writeAll plan lookup row (inputs.map fun i => { i with key })).error.isSome) =
      writesOf plan.binder row (.ok inputs) := by
  have hcounters := CounterPlan.columns_eq_nil h.counters_eq hcounter
  have hstep (i : BindInputs) (_ : i ∈ inputs) :
      (MigrateJob.writeRow plan lookup row { i with key }).toOption =
        (plan.binder.bind row i).toOption := by
    rw [MigrateJob.toOption_writeRow hcounters (h.counter_eq_false hcounter),
      Binder.toOption_bind_key]
  obtain ⟨hpushed, herror⟩ := runAll_congr hstep
  rw [MigrateJob.writeAll, runAll_map, writesOf]
  exact Prod.ext hpushed herror

/-- What the migration of a row pushes. -/
theorem processRow_eq [LiteralParsers] [SerdeJson]
    (lookup : BoundWrite → Except CdmError (Option Row)) {row : Row}
    (hwidth : row.cells.length = plan.projectionWidth)
    (haccepts : accepts plan.features.filters
      (MigrateJob.materialise row plan.projectionWidth plan.originKeyIndices) = .ok true)
    (hextract : ∀ extract ∈ plan.features.extractJson, extract.originIndex < row.cells.length)
    (hexplode : ∀ explode ∈ plan.features.explode, explode.originIndex < row.cells.length) :
    ((MigrateJob.processRow plan lookup row).pushed,
        (MigrateJob.processRow plan lookup row).error.isSome) =
      writesOf plan.binder row (do
        let ttl ← plan.features.writetime.ttl row
        let writetime ← plan.features.writetime.writetime row
        let extracted ← extractedOf plan.features.extractJson row
        let entries ← entriesOf plan.features.explode row
        return entries.map fun entry =>
          { entryInputs ttl writetime entry with extractedJson := extracted }) := by
  have hrow : MigrateJob.materialiseRow row plan.projectionWidth = row :=
    MigrateJob.materialiseRow_eq_self hwidth.ge
  rw [MigrateJob.processRow]
  by_cases hneeds : plan.needsRecord = true
  · rw [if_neg (by simpa using hneeds)]
    obtain ⟨record, hrecord⟩ : ∃ record, record =
      MigrateJob.materialise row plan.projectionWidth plan.originKeyIndices := ⟨_, rfl⟩
    have horigin : record.origin = row := by
      rw [hrecord, MigrateJob.materialise]
      exact hrow
    rw [← hrecord] at haccepts ⊢
    clear hrecord
    subst horigin
    simp only [MigrateJob.classify, haccepts]
    cases httl : plan.features.writetime.ttl record.origin with
    | error e => rfl
    | ok ttl =>
      cases hwritetime : plan.features.writetime.writetime record.origin with
      | error e => rfl
      | ok writetime =>
        simp only [bind, Except.bind]
        rcases extracted_cases hextract with ⟨e, e', hx, hx'⟩ | ⟨x, hx, hx'⟩
        · simp only [hx, hx']
          rfl
        · simp only [hx, hx']
          rcases entries_cases hexplode with ⟨e, hy, hy'⟩ | ⟨entries, hy, hy'⟩
          · simp only [hy, hy']
            rfl
          · simp only [hy, hy']
            cases entries with
            | none =>
              exact h.writeAll_eq hcounter lookup record.origin
                [{ entryInputs ttl writetime none with extractedJson := x.join }] (some record.key)
            | some entries =>
              cases entries with
              | nil => rfl
              | cons entry entries =>
                have hall := h.writeAll_eq hcounter lookup record.origin
                  ((List.map some (entry :: entries)).map fun entry =>
                    { entryInputs ttl writetime entry with extractedJson := x.join })
                  (some record.key)
                simp only [List.map_map] at hall
                simp only [Option.elim_some, List.map_map]
                exact hall
  · -- no feature is on, and each of them would have said nothing
    rw [if_pos (by simpa using hneeds)]
    rw [h.needsRecord_eq, MigrateFeatures.needsRecord] at hneeds
    simp only [Bool.or_eq_true, not_or, Bool.not_eq_true] at hneeds
    obtain ⟨⟨⟨⟨-, hwritetime⟩, httl⟩, hexplode⟩, hextract⟩ := hneeds
    rw [Option.isSome_eq_false_iff, Option.isNone_iff_eq_none] at hexplode hextract
    rw [WritetimeTtlPlan.ttl_of_hasTtl_eq_false httl,
      WritetimeTtlPlan.writetime_of_hasWritetime_eq_false hwritetime, hexplode, hextract]
    exact h.writeAll_eq hcounter lookup row [{}] none

end Insert

/-! ### The correction -/

variable {origin target : TableSchema}
  (htables : ResolvedTables.introspect origin target config = .ok tables)

include htables

/-- The TTL/writetime plan reads the cells behind the columns of the table. -/
theorem readsBehind :
    plan.features.writetime.ReadsBehind tables.mapping.originColumns.length := by
  have hplan := h.writetime_eq
  rw [writetimeTtl] at hplan
  split_ifs at hplan
  · rw [← Except.ok.inj hplan]
    intro column hcolumn
    cases hcolumn
  · rw [← TableFacts.length_columns (ResolvedTables.facts_of_introspect htables)]
    exact WritetimeTtlPlan.readsBehind_of_resolve hplan

/-- The exploded column is a map of the row. -/
theorem explode_map {explode : ExplodePlan} (hexplode : plan.features.explode = some explode) :
    ∃ column key value frozen, tables.mapping.originColumns[explode.originIndex]? = some column ∧
      CqlTypeInfo.parse column.cqlType = .ok (.map key value frozen) := by
  have hplan := h.explode_eq
  rw [hexplode, Build.explode] at hplan
  split_ifs at hplan
  · obtain ⟨found, hresolve, heq⟩ := map_eq_ok.1 hplan
    cases heq
    obtain ⟨facts, key, value, frozen, hfacts, htype⟩ := ExplodePlan.isMap_of_resolve hresolve
    obtain ⟨column, hcolumn, -, hparse⟩ :=
      TableFacts.getElem?_ofColumns (ResolvedTables.facts_of_introspect htables) hfacts
    rw [htype] at hparse
    exact ⟨column, key, value, frozen, hcolumn, hparse⟩
  · cases hplan

/-- The document column is one of the columns of the row. -/
theorem extractJson_lt {extract : ExtractJsonPlan} (hextract : plan.features.extractJson = some extract) :
    extract.originIndex < tables.mapping.originColumns.length := by
  have hplan := h.extractJson_eq
  rw [hextract, Build.extractJson] at hplan
  split_ifs at hplan
  · obtain ⟨found, hresolve, heq⟩ := map_eq_ok.1 hplan
    cases heq
    rw [← TableFacts.length_columns (ResolvedTables.facts_of_introspect htables)]
    exact ExtractJson.originIndex_lt hresolve
  · cases hplan

/-- The record of a row, or of one of its entries, is written as the row is bound. -/
theorem toOption_write {row : Row}
    {record : Record} (htarget : record.target = none)
    (horigin : record.origin = job.keys.scanned row) :
    (job.target.write record).toOption = (correctEntry plan row record.exploded).toOption := by
  have hcells (index : ℕ) (hindex : tables.mapping.originColumns.length ≤ index) :
      (job.keys.scanned row).cells[index]? = row.cells[index]? :=
    TargetKeyPlan.getElem?_scanned_of_le h.keys_eq row hindex
  have hlength := TargetKeyPlan.length_scanned job.keys row
  have hbehind := h.readsBehind htables
  rw [h.target_eq, CqlRowSink.write, CqlRowSink.counterDeltas, htarget, horigin, correctEntry]
  simp only [CqlRowSink.prepare, CqlRowSink.timestampsOf, planTimestamps, Option.getD_none,
    WritetimeTtlPlan.ttl_congr hbehind hlength hcells,
    WritetimeTtlPlan.writetime_congr hbehind hlength hcells]
  cases plan.features.writetime.ttl row with
  | error e => rfl
  | ok ttl =>
    cases plan.features.writetime.writetime row with
    | error e => rfl
    | ok writetime =>
      show ((plan.binder.bind (job.keys.scanned row) _).mapError _).toOption =
        ((plan.binder.bind row _).mapError _).toOption
      rw [toOption_mapError, toOption_mapError,
        TargetKeyPlan.bind_scanned h.select_eq h.binder_eq h.keys_eq]
      exact Binder.toOption_bind_key row (entryInputs ttl writetime record.exploded) _

/-- What the correction of a row's records writes. -/
theorem correctMissing_eq {row : Row}
    (hwidth : tables.mapping.originColumns.length ≤ row.cells.length) :
    ((job.correctMissing row).1, (job.correctMissing row).2.isSome) =
      match entriesOf plan.features.explode row with
      | .error _ => ([], true)
      | .ok entries =>
        ((runAll (correctEntry plan row) entries).1,
          (runAll (correctEntry plan row) entries).2.isSome) := by
  rw [ValidateJob.correctMissing, ValidateJob.enqueueLookups, h.jobExplode_eq]
  cases hexplode : plan.features.explode with
  | none =>
    have hstep (entry : Option ExplodedEntry) (hentry : entry ∈ [none]) :
        (job.target.write ((fun _ => job.keys.scanRecord row) entry)).toOption =
          (correctEntry plan row entry).toOption := by
      rw [List.mem_singleton.1 hentry]
      exact h.toOption_write htables rfl rfl
    obtain ⟨hwritten, hfailure⟩ := runAll_congr hstep
    rw [← runAll_map job.target.write] at hwritten hfailure
    exact Prod.ext hwritten hfailure
  | some explode =>
    obtain ⟨column, key, value, frozen, hcolumn, htype⟩ := h.explode_map htables hexplode
    obtain ⟨hlt, -⟩ := List.getElem?_eq_some_iff.1 hcolumn
    have hindex : explode.originIndex < (job.keys.scanRecord row).origin.cells.length := by
      show _ < (job.keys.scanned row).cells.length
      rw [TargetKeyPlan.length_scanned]
      omega
    have hcell : TargetKeyPlan.cellAt (job.keys.scanRecord row).origin explode.originIndex =
        TargetKeyPlan.cellAt row explode.originIndex := by
      show ((job.keys.scanned row).cells[explode.originIndex]?).join = _
      rw [TargetKeyPlan.getElem?_scanned_of_map h.keys_eq row hcolumn htype]
      rfl
    simp only [Option.map_some, entriesOf]
    rw [ExplodePlan.explodeRecord_eq hindex, hcell]
    cases explode.explode (TargetKeyPlan.cellAt row explode.originIndex) with
    | error e => rfl
    | ok entries =>
      have hstep (entry : ExplodedEntry) (_ : entry ∈ entries) :
          (job.target.write (ValidateJob.entryRecord ⟨explode, job.keys⟩ (job.keys.scanRecord row)
            entry)).toOption = (correctEntry plan row (some entry)).toOption :=
        h.toOption_write htables rfl rfl
      obtain ⟨hwritten, hfailure⟩ := runAll_congr hstep
      simp only [Except.map, runAll_map]
      exact Prod.ext hwritten hfailure

end Build.Shared

/-! ### When they agree -/

section Agreement

variable [LiteralParsers] [SerdeJson]

/-- The correction of a row whose records are all missing writes, marker by marker, what its
migration writes, and fails when that does. -/
def CorrectionAgrees (plan : MigratePlan) (job : ValidateJob)
    (lookup : BoundWrite → Except CdmError (Option Row)) (row : Row) : Prop :=
  (MigrateJob.processRow plan lookup row).pushed = (job.correctMissing row).1 ∧
    (MigrateJob.processRow plan lookup row).error.isSome = (job.correctMissing row).2.isSome

/-- The row can be written at all, leaving the extracted property aside: its TTL and its writetime
can be read, its map explodes, and the binder takes it with the first entry. -/
def Bindable (plan : MigratePlan) (row : Row) : Prop :=
  ∃ ttl writetime entry entries values, plan.features.writetime.ttl row = .ok ttl ∧
    plan.features.writetime.writetime row = .ok writetime ∧
    entriesOf plan.features.explode row = .ok (entry :: entries) ∧
    plan.binder.bind row (entryInputs ttl writetime entry) = .ok values

/-- Extract JSON has nothing to write for the row: it is off, the document holds no value for the
property, or every column that takes the property leaves it out. -/
def NothingExtracted (plan : MigratePlan) (row : Row) : Prop :=
  ∃ extracted, extractedOf plan.features.extractJson row = .ok extracted ∧
    ∀ bytes, extracted = some bytes → plan.binder.LeavesOut bytes

omit [LiteralParsers] [SerdeJson] in
theorem bindable_iff {plan : MigratePlan} {row : Row} {ttl writetime : Option ℤ}
    {entry : Option ExplodedEntry} {entries : List (Option ExplodedEntry)}
    (httl : plan.features.writetime.ttl row = .ok ttl)
    (hwritetime : plan.features.writetime.writetime row = .ok writetime)
    (hsplit : entriesOf plan.features.explode row = .ok (entry :: entries)) :
    Bindable plan row ↔
      (plan.binder.bind row (entryInputs ttl writetime entry)).toOption ≠ none := by
  rw [Option.ne_none_iff_exists']
  constructor
  · rintro ⟨ttl', writetime', entry', entries', values, httl', hwritetime', hsplit', hbind⟩
    cases httl.symm.trans httl'
    cases hwritetime.symm.trans hwritetime'
    cases hsplit.symm.trans hsplit'
    exact ⟨values, toOption_eq_some.2 hbind⟩
  · rintro ⟨values, hbind⟩
    exact ⟨ttl, writetime, entry, entries, values, httl, hwritetime, hsplit,
      toOption_eq_some.1 hbind⟩

variable [AlphanumericTable] {tables : ResolvedTables} {config : RunConfig} {planner : Planner}
  {plan : MigratePlan} {job : ValidateJob} {origin target : TableSchema}

omit [LiteralParsers] [SerdeJson] [AlphanumericTable] in
/-- Entries bound with the extracted property and without it come to the same when the first entry is
rejected anyway, and when the property is left out. -/
theorem writes_agree_iff {binder : Binder} (hbinds : binder.BindsExtracted) {row : Row}
    {ttl writetime : Option ℤ} {extracted : Option Bytes} {entry : Option ExplodedEntry}
    {entries : List (Option ExplodedEntry)} {write : Option ExplodedEntry → Except CdmError _}
    (hwrite : ∀ e, (write e).toOption =
      (binder.bind row (entryInputs ttl writetime e)).toOption) :
    (writesOf binder row (.ok ((entry :: entries).map fun e =>
        { entryInputs ttl writetime e with extractedJson := extracted })) =
      ((runAll write (entry :: entries)).1,
        (runAll write (entry :: entries)).2.isSome)) ↔
      (binder.bind row (entryInputs ttl writetime entry)).toOption = none ∨
        ∀ bytes, extracted = some bytes → binder.LeavesOut bytes := by
  have hsame (e : Option ExplodedEntry) :
      (binder.bind row { entryInputs ttl writetime e with extractedJson := extracted }).toOption =
          (binder.bind row (entryInputs ttl writetime e)).toOption ↔
        (binder.bind row (entryInputs ttl writetime e)).toOption = none ∨
          ∀ bytes, extracted = some bytes → binder.LeavesOut bytes :=
    Binder.toOption_bind_eq_iff hbinds
  rw [writesOf, runAll_map]
  constructor
  · intro hagree
    have hfirst := toOption_eq_of_runAll (Prod.mk.inj hagree).1
    rw [hwrite] at hfirst
    exact (hsame entry).1 hfirst
  · rintro (hnone | hleaves)
    · have hwith := (hsame entry).2 (.inl hnone)
      rw [hnone] at hwith
      rw [← hwrite] at hnone
      rw [runAll_eq_failed_iff.2 hnone]
      exact runAll_eq_failed_iff.2 hwith
    · have hstep (e : Option ExplodedEntry) (_ : e ∈ entry :: entries) :
          (binder.bind row { entryInputs ttl writetime e with
            extractedJson := extracted }).toOption = (write e).toOption := by
        rw [hwrite]
        exact (hsame e).2 (.inr hleaves)
      obtain ⟨hvalues, hfailure⟩ := runAll_congr hstep
      exact Prod.ext hvalues hfailure

/-- A correction writes what a migration writes exactly when extract JSON has nothing to write for the
row, or the row cannot be written at all. -/
theorem correctionAgrees_iff (htables : ResolvedTables.introspect origin target config = .ok tables)
    (hmigrate : Build.migrate tables config planner = .ok plan)
    (hvalidate : Build.validate tables config planner = .ok job)
    (hcounter : tables.mapping.targetIsCounter = false)
    (lookup : BoundWrite → Except CdmError (Option Row)) {row : Row}
    (hwidth : row.cells.length = (Build.projection tables plan.features.writetime).width)
    (haccepts : accepts plan.features.filters
      (MigrateJob.materialise row plan.projectionWidth plan.originKeyIndices) = .ok true)
    (hentries : entriesOf plan.features.explode row ≠ .ok []) :
    CorrectionAgrees plan job lookup row ↔ (Bindable plan row → NothingExtracted plan row) := by
  obtain ⟨select, upsert, h⟩ := Build.shared hmigrate hvalidate
  have hwide : tables.mapping.originColumns.length ≤ row.cells.length := by
    rw [hwidth, Build.projection, OriginProjection.new, OriginProjection.width]
    simp
  have hextract : ∀ extract ∈ plan.features.extractJson, extract.originIndex < row.cells.length :=
    fun extract hsome => (h.extractJson_lt htables hsome).trans_le hwide
  have hexplode : ∀ explode ∈ plan.features.explode, explode.originIndex < row.cells.length := by
    intro explode hsome
    obtain ⟨column, _, _, _, hcolumn, -⟩ := h.explode_map htables hsome
    exact (List.getElem?_eq_some_iff.1 hcolumn).1.trans_le hwide
  have hmigrated := h.processRow_eq hcounter lookup (by rw [hwidth, h.width_eq]) haccepts hextract
    hexplode
  have hcorrected := h.correctMissing_eq htables hwide
  have hbinds := TargetKeyPlan.bindsExtracted h.select_eq h.binder_eq h.keys_eq
    (h.upsert_eq_insert hcounter)
  rw [CorrectionAgrees, ← Prod.mk.injEq, hmigrated, hcorrected]
  cases hsplit : entriesOf plan.features.explode row with
  | error e =>
    -- the map does not explode: the migration fails, here or before
    have hnot : ¬Bindable plan row := by
      rintro ⟨_, _, _, _, _, -, -, h, -⟩
      cases hsplit.symm.trans h
    refine iff_of_true ?_ fun h => absurd h hnot
    cases plan.features.writetime.ttl row <;> cases plan.features.writetime.writetime row <;>
      cases extractedOf plan.features.extractJson row <;> rfl
  | ok all =>
    obtain ⟨entry, entries, rfl⟩ : ∃ entry entries, all = entry :: entries := by
      cases all with
      | nil => exact absurd hsplit hentries
      | cons entry entries => exact ⟨entry, entries, rfl⟩
    -- a migration that fails before it binds agrees with a correction that writes nothing
    have failed (e : CdmError) : writesOf plan.binder row (.error e) =
        ((runAll (correctEntry plan row) (entry :: entries)).1,
          (runAll (correctEntry plan row) (entry :: entries)).2.isSome) ↔
        (correctEntry plan row entry).toOption = none :=
      eq_comm.trans runAll_eq_failed_iff
    cases httl : plan.features.writetime.ttl row with
    | error e =>
      have hnot : ¬Bindable plan row := by
        rintro ⟨_, _, _, _, _, h, -⟩
        cases httl.symm.trans h
      refine iff_of_true ((failed e).2 ?_) fun h => absurd h hnot
      rw [correctEntry, httl]
      rfl
    | ok ttl =>
      cases hwritetime : plan.features.writetime.writetime row with
      | error e =>
        have hnot : ¬Bindable plan row := by
          rintro ⟨_, _, _, _, _, -, h, -⟩
          cases hwritetime.symm.trans h
        refine iff_of_true ((failed e).2 ?_) fun h => absurd h hnot
        rw [correctEntry, httl, hwritetime]
        rfl
      | ok writetime =>
        have hwrite (e : Option ExplodedEntry) : (correctEntry plan row e).toOption =
            (plan.binder.bind row (entryInputs ttl writetime e)).toOption := by
          rw [correctEntry, httl, hwritetime]
          exact toOption_mapError _ _
        rw [bindable_iff httl hwritetime hsplit, NothingExtracted]
        cases extractedOf plan.features.extractJson row with
        | error e =>
          refine (failed e).trans ?_
          rw [hwrite]
          simp
        | ok extracted =>
          refine (writes_agree_iff hbinds hwrite).trans ?_
          rw [or_iff_not_imp_left]
          simp

end Agreement

/-! ### A property that a correction leaves out

The document of the row names a city, which is extracted into a column of its own. -/

namespace CorrectionSample

local instance : AlphanumericTable := AlphanumericTable.ascii

attribute [local instance] LiteralParsers.rejecting

/-- A document that names a city. -/
def document : String := "\x7b\"city\":\"Rome\"\x7d"

/-- The one document of the sample parses. -/
local instance : SerdeJson where
  fromStr text :=
    if text = document then .ok (.object [("city", .string "Rome")])
    else .error ⟨"malformed JSON", 1, 1⟩
  render _ := document
  pointer _ _ := none

def origin : TableSchema where
  keyspace := "ks"
  table := "src"
  columns := [⟨"id", "int", .partitionKey, 0⟩, ⟨"doc", "text", .regular, 0⟩]
  nodup := by decide

def target : TableSchema where
  keyspace := "ks"
  table := "dst"
  columns := [⟨"id", "int", .partitionKey, 0⟩, ⟨"city", "text", .regular, 0⟩]
  nodup := by decide

def config : RunConfig where
  explodeMap := ⟨"", "", ""⟩
  extractJson := ⟨"doc", .field "city", "city", false⟩
  writetimeTtl := ⟨false, [], false, [], false, 0, 0, 0⟩
  missingKeyPolicy := {}
  mapRemoveNullValue := false
  autocorrect := ⟨true, false, true⟩
  keysOnly := false

def planner : Planner := ⟨⟨[]⟩, false⟩

def mapping : ColumnMapping where
  originColumns := origin.columns
  sources := [.origin 0, .extractJson 1]
  originTable := origin
  targetTable := target
  length_sources := rfl
  originIndex_lt := by decide
  key_derivable := by decide

def tables : ResolvedTables where
  mapping := mapping
  features := {
    origin := ⟨⟨"ks", "src"⟩, [⟨"id", .primitive .int, true⟩, ⟨"doc", .primitive .text, false⟩]⟩
    target := ⟨⟨"ks", "dst"⟩, [⟨"id", .primitive .int, true⟩, ⟨"city", .primitive .text, false⟩]⟩ }

def extract : ExtractJsonPlan := ⟨1, .field "city", "city", .primitive .text, false⟩

def binder : Binder where
  statement := TargetUpsert.insert mapping ⟨false, false⟩
  columns := [⟨"id", .primitive .int, "int", .passthrough, .origin 0, true⟩,
    ⟨"city", .primitive .text, "text", .passthrough, .extractJson 1, false⟩]
  missingKey := {}
  mapRemoveNullValue := false

def plan : MigratePlan where
  binder := binder
  keyBinding := [0]
  counters := ⟨[]⟩
  originKeyIndices := [0]
  projectionWidth := 2
  features := { extractJson := some extract }
  needsRecord := true

def keys : TargetKeyPlan := ⟨[(.origin 0, none)]⟩

def job : ValidateJob where
  keys := keys
  target := CqlRowSink.prepare binder mapping (some (planTimestamps {}))
  plan := {
    columns := [⟨"id", 0, .mapped 0, .passthrough⟩, ⟨"city", 1, .extractJson, .passthrough⟩]
    extractJson := some extract
    extractJsonOverwrites := false
    keysOnly := false }
  filters := []
  explode := none
  settings := ⟨⟨true, false, true⟩, false⟩

/-- A row with the document. -/
def row : Row := ⟨[some [0, 0, 0, 1], some document.toUTF8.data.toList]⟩

/-- The migration writes the city; the correction of the same row leaves it unset. -/
theorem not_correctionAgrees :
    ResolvedTables.introspect origin target config = .ok tables ∧
      Build.migrate tables config planner = .ok plan ∧
      Build.validate tables config planner = .ok job ∧
      tables.mapping.targetIsCounter = false ∧
      row.cells.length = (Build.projection tables plan.features.writetime).width ∧
      (MigrateJob.processRow plan (fun _ => .ok none) row).pushed =
        [[.value [0, 0, 0, 1], .value "Rome".toUTF8.data.toList]] ∧
      (job.correctMissing row).1 = [[.value [0, 0, 0, 1], .unset]] ∧
      ¬CorrectionAgrees plan job (fun _ => .ok none) row := by
  have hmigrated : (MigrateJob.processRow plan (fun _ => .ok none) row).pushed =
      [[.value [0, 0, 0, 1], .value "Rome".toUTF8.data.toList]] := rfl
  have hcorrected : (job.correctMissing row).1 = [[.value [0, 0, 0, 1], .unset]] := rfl
  refine ⟨rfl, rfl, rfl, rfl, rfl, hmigrated, hcorrected, ?_⟩
  rintro ⟨hagree, -⟩
  rw [hmigrated, hcorrected] at hagree
  revert hagree
  decide

/-- A row without a document is corrected as it is migrated. -/
theorem correctionAgrees_of_null :
    CorrectionAgrees plan job (fun _ => .ok none) ⟨[some [0, 0, 0, 1], none]⟩ := by
  have htables : ResolvedTables.introspect origin target config = .ok tables := rfl
  have hmigrate : Build.migrate tables config planner = .ok plan := rfl
  have hvalidate : Build.validate tables config planner = .ok job := rfl
  have hentries : entriesOf plan.features.explode ⟨[some [0, 0, 0, 1], none]⟩ ≠ .ok [] := by
    intro h
    cases h
  refine (correctionAgrees_iff htables hmigrate hvalidate rfl (fun _ => .ok none) rfl rfl
    hentries).2 fun _ => ?_
  refine ⟨none, rfl, ?_⟩
  intro bytes h
  cases h

end CorrectionSample

end Cdm
