import Cdm.Jobs.Migrate

/-!
# The two paths of a migrated row

A run whose features never look at a row binds it straight off the response frame, with default
inputs; any other run materialises the row, classifies it and binds what the features produced.
Which path is taken is decided once, by `needsRecord`.

On a run that does not need records the two paths bind the same values to the same markers, and
reject the same rows at the same marker.  One thing is lost on the fast path: the inputs of the
feature path carry the row's primary key, and a bind failure names it; the default inputs carry
none.
-/

namespace Cdm

open Fallible

/-! ### When a column can be bound -/

namespace Binder

variable (binder : Binder)

/-- A column without a value can be bound: it is no key column, or its type has a substitute. -/
def AbsentBindable (column : ColumnBind) : Prop :=
  column.isKey = true → (binder.missingKey.substitute column.cqlType).isSome = true

/-- A value can be bound: null map values can be removed from it, and it is not an empty collection
of a key column. -/
def PresentBindable (column : ColumnBind) (bytes : Bytes) : Prop :=
  ∃ kept, binder.stripped column bytes = .ok kept ∧
    (column.isKey = true → (isJavaCollection column.cqlType && isEmptyCollection kept) = false)

/-- The column can be bound from the row alone, without any feature: the cell it reads is there, is
null where a null can be bound, or converts to a value that can be. -/
def Bindable (column : ColumnBind) (row : Row) : Prop :=
  match column.source with
  | .origin index =>
    (row.cells[index]? = some none ∧ binder.AbsentBindable column) ∨
      ∃ bytes converted, row.cells[index]? = some (some bytes) ∧
        convert column bytes = .ok converted ∧ binder.PresentBindable column converted
  | _ => binder.AbsentBindable column

/-- The target column at `index` exists and can be bound. -/
def BindableAt (row : Row) (index : ℕ) : Prop :=
  ∃ column, binder.columns[index]? = some column ∧ binder.Bindable column row

/-- Every marker of the statement can be bound. -/
def BindsRow (row : Row) : Prop :=
  ∀ slot ∈ binder.statement.slots, ∀ index, slot = .column index ∨ slot = .keyColumn index →
    binder.BindableAt row index

/-- Every marker of the lookup can be bound. -/
def BindsKey (binding : List ℕ) (row : Row) : Prop := ∀ index ∈ binding, binder.BindableAt row index

variable {binder}

theorem exists_absentValue {column : ColumnBind} :
    (∃ value, binder.absentValue column = .ok value) ↔ binder.AbsentBindable column := by
  rw [absentValue, AbsentBindable]
  cases column.isKey with
  | false => simp
  | true =>
    cases binder.missingKey.substitute column.cqlType with
    | none => simp
    | some bytes => simp

theorem exists_presentValue {column : ColumnBind} {bytes : Bytes} :
    (∃ value, binder.presentValue column bytes = .ok value) ↔
      binder.PresentBindable column bytes := by
  rw [PresentBindable]
  constructor
  · rintro ⟨value, h⟩
    obtain ⟨kept, hkept, h⟩ := bind_eq_ok.1 h
    refine ⟨kept, hkept, fun hkey => ?_⟩
    by_contra hempty
    rw [Bool.not_eq_false] at hempty
    rw [if_pos hempty, if_pos hkey] at h
    cases h
  · rintro ⟨kept, hkept, hkey⟩
    by_cases hempty : (isJavaCollection column.cqlType && isEmptyCollection kept) = true
    · have hnot : ¬ column.isKey = true := fun h => by simp [hkey h] at hempty
      exact ⟨.unset, bind_eq_ok.2 ⟨kept, hkept, by rw [if_pos hempty, if_neg hnot]⟩⟩
    · exact ⟨.value kept, bind_eq_ok.2 ⟨kept, hkept, by rw [if_neg hempty]⟩⟩

/-- Binding a column is taking its value and binding that. -/
theorem exists_bindColumn {column : ColumnBind} {row : Row} {inputs : BindInputs} :
    (∃ value, binder.bindColumn column row inputs = .ok value) ↔
      (rawValue column row inputs = .ok none ∧ binder.AbsentBindable column) ∨
        ∃ bytes, rawValue column row inputs = .ok (some bytes) ∧
          binder.PresentBindable column bytes := by
  simp only [← exists_absentValue, ← exists_presentValue]
  constructor
  · rintro ⟨value, h⟩
    rcases bindColumn_eq_ok h with ⟨hraw, hvalue⟩ | ⟨bytes, hraw, hvalue⟩
    · exact .inl ⟨hraw, value, hvalue⟩
    · exact .inr ⟨bytes, hraw, value, hvalue⟩
  · rintro (⟨hraw, value, hvalue⟩ | ⟨bytes, hraw, value, hvalue⟩)
    · exact ⟨value, bind_eq_ok.2 ⟨none, hraw, mapError_eq_ok.2 hvalue⟩⟩
    · exact ⟨value, bind_eq_ok.2 ⟨some bytes, hraw, mapError_eq_ok.2 hvalue⟩⟩

/-- With default inputs a column is bound exactly when the row alone allows it. -/
theorem exists_bindColumn_default {column : ColumnBind} {row : Row} :
    (∃ value, binder.bindColumn column row {} = .ok value) ↔ binder.Bindable column row := by
  rw [exists_bindColumn, Bindable]
  cases hsource : column.source with
  | origin index =>
    simp only [rawValue_origin_eq_ok hsource]
    constructor
    · rintro (⟨⟨hcell, -⟩ | ⟨_, _, _, _, h⟩, habsent⟩ | ⟨bytes, ⟨-, h⟩ | h, hpresent⟩)
      · exact .inl ⟨hcell, habsent⟩
      · cases h
      · cases h
      · obtain ⟨raw, converted, hcell, hconvert, h⟩ := h
        cases h
        exact .inr ⟨raw, _, hcell, hconvert, hpresent⟩
    · rintro (⟨hcell, habsent⟩ | ⟨bytes, converted, hcell, hconvert, hpresent⟩)
      · exact .inl ⟨.inl ⟨hcell, trivial⟩, habsent⟩
      · exact .inr ⟨converted, .inr ⟨bytes, converted, hcell, hconvert, rfl⟩, hpresent⟩
  | _ => simp [rawValue, hsource]

theorem exists_bindIndexed {row : Row} {bindIndex index : ℕ} :
    (∃ value, binder.bindIndexed row {} bindIndex index = .ok value) ↔
      binder.BindableAt row index := by
  simp only [bindIndexed_eq_ok, BindableAt, ← exists_bindColumn_default]
  constructor
  · rintro ⟨value, column, hcolumn, hvalue⟩
    exact ⟨column, hcolumn, value, hvalue⟩
  · rintro ⟨column, hcolumn, value, hvalue⟩
    exact ⟨value, column, hcolumn, hvalue⟩

/-- A row binds with default inputs exactly when every marker can be bound. -/
theorem exists_bind {row : Row} : (∃ values, binder.bind row {} = .ok values) ↔
    binder.BindsRow row := by
  rw [bind, exists_mapM_eq_ok, BindsRow]
  constructor
  · intro h slot hslot index hindex
    obtain ⟨bindIndex, hat⟩ := List.mem_iff_getElem?.1 hslot
    obtain ⟨value, hvalue⟩ := h _ (List.mk_mem_zipIdx_iff_getElem?.2 hat)
    rcases hindex with rfl | rfl
    · exact exists_bindIndexed.1 ⟨value, hvalue⟩
    · exact exists_bindIndexed.1 ⟨value, hvalue⟩
  · rintro h ⟨slot, bindIndex⟩ hmem
    have hslot := List.fst_mem_of_mem_zipIdx hmem
    cases slot with
    | column index => exact exists_bindIndexed.2 (h _ hslot index (.inl rfl))
    | keyColumn index => exact exists_bindIndexed.2 (h _ hslot index (.inr rfl))
    | ttl => exact ⟨_, rfl⟩
    | writetime => exact ⟨_, rfl⟩

theorem exists_bindKey {binding : List ℕ} {row : Row} :
    (∃ values, binder.bindKey binding row {} = .ok values) ↔ binder.BindsKey binding row := by
  rw [bindKey, exists_mapM_eq_ok, BindsKey]
  constructor
  · intro h index hindex
    obtain ⟨bindIndex, hat⟩ := List.mem_iff_getElem?.1 hindex
    exact exists_bindIndexed.1 (h _ (List.mk_mem_zipIdx_iff_getElem?.2 hat))
  · rintro h ⟨index, bindIndex⟩ hmem
    exact exists_bindIndexed.2 (h index (List.fst_mem_of_mem_zipIdx hmem))

/-! ### The key of a failure -/

/-- The key among the inputs matters to the failure only. -/
theorem bindSlot_key (row : Row) (key : Option PrimaryKey) (slot : BindSlot × ℕ) :
    binder.bindSlot row { key } slot =
      (binder.bindSlot row {} slot).mapError fun failure => { failure with key } := by
  have indexed (bindIndex index : ℕ) : binder.bindIndexed row { key } bindIndex index =
      (binder.bindIndexed row {} bindIndex index).mapError fun failure => { failure with key } := by
    rw [bindIndexed, bindIndexed]
    cases binder.columns[index]? with
    | none => rfl
    | some column =>
      have hcolumn : binder.bindColumn column row { key } = binder.bindColumn column row {} := rfl
      simp only [hcolumn]
      cases binder.bindColumn column row {} with
      | error cause => rfl
      | ok value => rfl
  obtain ⟨slot, bindIndex⟩ := slot
  cases slot with
  | column index => exact indexed bindIndex index
  | keyColumn index => exact indexed bindIndex index
  | ttl => rfl
  | writetime => rfl

theorem bind_key (binder : Binder) (row : Row) (key : Option PrimaryKey) :
    binder.bind row { key } =
      (binder.bind row {}).mapError fun failure => { failure with key } := by
  rw [bind, bind, ← mapM_mapError]
  congr 1
  funext slot
  exact bindSlot_key row key slot

theorem bindKey_key (binder : Binder) (binding : List ℕ) (row : Row) (key : Option PrimaryKey) :
    binder.bindKey binding row { key } =
      (binder.bindKey binding row {}).mapError fun failure => { failure with key } := by
  rw [bindKey, bindKey, ← mapM_mapError]
  congr 1
  funext slot
  exact bindSlot_key row key (.column slot.1, slot.2)

end Binder

/-- An error that names a key is not the error that names none. -/
theorem BindFailure.toError_key_ne (failure : BindFailure) (key : PrimaryKey) :
    toError { failure with key := some key } ≠ toError { failure with key := none } := by
  intro h
  have hkey := congrArg (fun e : CdmError => e.context.primaryKey) h
  simp [toError, CdmError.withPrimaryKey, CdmError.withColumn, CdmError.withSide] at hkey

namespace MigrateJob

section

variable (plan : MigratePlan) (lookup : BoundWrite → Except CdmError (Option Row))

/-! ### The paths -/

/-- The fast path: the frame row, bound with default inputs. -/
def borrowed (row : Row) : RowOutcome := writeAll plan lookup row [{}]

/-- The feature path: the materialised row, classified, bound with the inputs of the features. -/
def materialised [LiteralParsers] [SerdeJson] (row : Row) : RowOutcome :=
  let record := materialise row plan.projectionWidth plan.originKeyIndices
  match classify plan.features record with
  | .error e => { error := some (.record e) }
  | .ok .skipped => { skipped := true }
  | .ok (.write inputs) => writeAll plan lookup record.origin (bindInputs record.key inputs)

/-- Every marker of the row can be bound; on a counter run those of the lookup, and then those of
the row with its deltas. -/
def BindsEvery (row : Row) : Prop :=
  if plan.isCounterRun then
    let source := materialiseRow row plan.projectionWidth
    plan.binder.BindsKey plan.keyBinding source ∧
      ∀ key current deltas, plan.binder.bindKey plan.keyBinding source {} = .ok key →
        lookup key = .ok current → plan.counters.deltas source current = .ok deltas →
        plan.binder.BindsRow (CounterPlan.deltaRow source deltas)
  else plan.binder.BindsRow row

/-- The bind failure a row runs into, if any. -/
def bindFailure (row : Row) : Option BindFailure :=
  if plan.isCounterRun then
    let source := materialiseRow row plan.projectionWidth
    match plan.binder.bindKey plan.keyBinding source {} with
    | .error failure => some failure
    | .ok key =>
      match lookup key with
      | .error _ => none
      | .ok current =>
        match plan.counters.deltas source current with
        | .error _ => none
        | .ok deltas =>
          match plan.binder.bind (CounterPlan.deltaRow source deltas) {} with
          | .error failure => some failure
          | .ok _ => none
  else
    match plan.binder.bind row {} with
    | .error failure => some failure
    | .ok _ => none

variable {plan lookup}

theorem bindFailure_eq_none_iff {row : Row} :
    bindFailure plan lookup row = none ↔ BindsEvery plan lookup row := by
  unfold bindFailure BindsEvery
  by_cases hcounter : plan.isCounterRun = true
  · rw [if_pos hcounter, if_pos hcounter]
    simp only [← Binder.exists_bindKey, ← Binder.exists_bind]
    cases hkey : plan.binder.bindKey plan.keyBinding (materialiseRow row plan.projectionWidth) {} with
    | error failure => simp
    | ok key =>
      cases hcurrent : lookup key with
      | error e =>
        refine iff_of_true (by simp [hcurrent]) ⟨⟨key, rfl⟩, ?_⟩
        rintro _ current deltas ⟨⟩ h
        rw [hcurrent] at h
        cases h
      | ok current =>
        cases hdeltas : plan.counters.deltas (materialiseRow row plan.projectionWidth) current with
        | error e =>
          refine iff_of_true (by simp [hcurrent, hdeltas]) ⟨⟨key, rfl⟩, ?_⟩
          rintro _ _ deltas ⟨⟩ h h'
          cases hcurrent.symm.trans h
          cases hdeltas.symm.trans h'
        | ok deltas =>
          cases hbind : plan.binder.bind
              (CounterPlan.deltaRow (materialiseRow row plan.projectionWidth) deltas) {} with
          | error failure =>
            refine iff_of_false (by simp [hcurrent, hdeltas, hbind]) ?_
            rintro ⟨-, h⟩
            obtain ⟨values, hvalues⟩ := h key current deltas rfl hcurrent hdeltas
            cases hbind.symm.trans hvalues
          | ok values =>
            refine iff_of_true (by simp [hcurrent, hdeltas, hbind]) ⟨⟨key, rfl⟩, ?_⟩
            rintro _ _ _ ⟨⟩ h h'
            cases hcurrent.symm.trans h
            cases hdeltas.symm.trans h'
            exact ⟨values, hbind⟩
  · rw [if_neg hcounter, if_neg hcounter, ← Binder.exists_bind]
    cases plan.binder.bind row {} with
    | error failure => simp
    | ok values => simp

/-- A write under a key is the write under none, with the failure named. -/
theorem writeRow_key (row : Row) (key : Option PrimaryKey) :
    writeRow plan lookup row { key } =
      match bindFailure plan lookup row with
      | some failure => .error (.record { failure with key }.toError)
      | none => writeRow plan lookup row {} := by
  have hbind (r : Row) := plan.binder.bind_key r key
  have hkey (r : Row) := plan.binder.bindKey_key plan.keyBinding r key
  unfold writeRow bindFailure
  by_cases hcounter : plan.isCounterRun = true
  · simp only [if_pos hcounter, writeCounterRow, bindRecord, hbind, hkey]
    cases plan.binder.bindKey plan.keyBinding (materialiseRow row plan.projectionWidth) {} with
    | error failure => rfl
    | ok values =>
      cases hcurrent : lookup values with
      | error e => simp [hcurrent, Except.mapError, bind, Except.bind]
      | ok current =>
        cases hdeltas : plan.counters.deltas (materialiseRow row plan.projectionWidth) current with
        | error e => simp [hcurrent, hdeltas, Except.mapError, bind, Except.bind]
        | ok deltas =>
          cases hrow : plan.binder.bind
              (CounterPlan.deltaRow (materialiseRow row plan.projectionWidth) deltas) {} with
          | error failure => simp [hcurrent, hdeltas, hrow, Except.mapError, bind, Except.bind]
          | ok bound => simp [hcurrent, hdeltas, hrow, Except.mapError, bind, Except.bind]
  · simp only [if_neg hcounter, bindRecord, hbind]
    cases plan.binder.bind row {} with
    | error failure => rfl
    | ok values => rfl

/-! ### The paths agree -/

variable [LiteralParsers] [SerdeJson]

/-- Features that need no record let every row through and add nothing to it. -/
theorem classify_of_needsRecord {features : MigrateFeatures} (h : features.needsRecord = false)
    (record : Record) :
    classify features record = .ok (.write ⟨none, none, none, none⟩) := by
  simp only [MigrateFeatures.needsRecord, Bool.or_eq_false_iff, Bool.not_eq_eq_eq_not,
    Bool.not_false, List.isEmpty_iff, Option.isSome_eq_false_iff, Option.isNone_iff_eq_none] at h
  obtain ⟨⟨⟨⟨hfilters, hwritetime⟩, httl⟩, hexplode⟩, hextract⟩ := h
  unfold classify extracted entries
  rw [hfilters, hexplode, hextract, WritetimeTtlPlan.ttl_of_hasTtl_eq_false httl,
    WritetimeTtlPlan.writetime_of_hasWritetime_eq_false hwritetime]
  rfl

/-- On a row of the projection's width, the feature path of such a run binds the row itself, under
its key. -/
theorem materialised_of_needsRecord {row : Row} (hneeds : plan.features.needsRecord = false)
    (hwidth : row.cells.length = plan.projectionWidth) :
    ∃ key, materialised plan lookup row = writeAll plan lookup row [{ key := some key }] := by
  refine ⟨(materialise row plan.projectionWidth plan.originKeyIndices).key, ?_⟩
  have hrow : (materialise row plan.projectionWidth plan.originKeyIndices).origin = row :=
    materialiseRow_eq_self hwidth.ge
  unfold materialised
  simp only [classify_of_needsRecord hneeds, hrow]
  rfl

omit [LiteralParsers] [SerdeJson] in
/-- The outcome of one write. -/
theorem writeAll_singleton (row : Row) (inputs : BindInputs) :
    writeAll plan lookup row [inputs] =
      match writeRow plan lookup row inputs with
      | .ok values => { pushed := [values] }
      | .error e => { error := some e } := by
  unfold writeAll
  rw [runAll]
  cases writeRow plan lookup row inputs with
  | error e => rfl
  | ok values => rfl

variable [AlphanumericTable]

/-- **The fast path and the feature path.** On a run that needs no records, and a row of the
projection's width, the two paths have the same outcome exactly when every marker of the row can be
bound.  In every case they push the same values for the same markers and agree on whether the row is
skipped; a row that cannot be bound fails with the same failure, which names the row's primary key
on the feature path only. -/
theorem borrowed_eq_materialised_iff {mapping : ColumnMapping} {projection : OriginProjection}
    {planner : Planner} {missingKey : MissingKeyPolicy} {mapRemoveNullValue : Bool}
    {features : MigrateFeatures}
    (hplan : MigratePlan.resolve mapping projection planner missingKey mapRemoveNullValue features =
      .ok plan)
    (hneeds : plan.needsRecord = false) {row : Row}
    (hwidth : row.cells.length = plan.projectionWidth) :
    (borrowed plan lookup row = materialised plan lookup row ↔ BindsEvery plan lookup row) ∧
      (borrowed plan lookup row).pushed = (materialised plan lookup row).pushed ∧
      (borrowed plan lookup row).skipped = (materialised plan lookup row).skipped ∧
      ((borrowed plan lookup row).error = (materialised plan lookup row).error ∨
        ∃ (failure : BindFailure) (key : PrimaryKey),
          (borrowed plan lookup row).error =
            some (.record { failure with key := none }.toError) ∧
          (materialised plan lookup row).error =
            some (.record { failure with key := some key }.toError)) := by
  have hfeatures : plan.features.needsRecord = false := by
    rw [← hneeds, MigratePlan.needsRecord_of_resolve hplan]
  obtain ⟨key, hmaterialised⟩ : ∃ key, materialised plan lookup row = _ :=
    materialised_of_needsRecord hfeatures hwidth
  rw [← bindFailure_eq_none_iff, hmaterialised, borrowed, writeAll_singleton, writeAll_singleton,
    writeRow_key row none, writeRow_key row (some key)]
  cases bindFailure plan lookup row with
  | none => simp
  | some failure =>
    refine ⟨iff_of_false ?_ (by simp), rfl, rfl, .inr ⟨failure, key, rfl, rfl⟩⟩
    intro h
    have herror := congrArg RowOutcome.error h
    simp only [Option.some.injEq, RowError.record.injEq] at herror
    exact failure.toError_key_ne key herror.symm

end

end MigrateJob

/-! ### A regular column that becomes a key column -/

namespace PathSample

open MigrateSample

local instance : AlphanumericTable := AlphanumericTable.ascii

attribute [local instance] LiteralParsers.rejecting SerdeJson.rejecting

/-- No lookup is made. -/
def lookup : BoundWrite → Except CdmError (Option Row) := fun _ => .ok none

/-- A row with both cells binds alike on both paths. -/
theorem same_of_present : MigrateJob.borrowed plan lookup ⟨[some [0, 0, 0, 1], some [0, 0, 0, 2]]⟩ =
    MigrateJob.materialised plan lookup ⟨[some [0, 0, 0, 1], some [0, 0, 0, 2]]⟩ := by
  refine (MigrateJob.borrowed_eq_materialised_iff resolved rfl rfl).1.2 ?_
  rw [← MigrateJob.bindFailure_eq_none_iff]
  rfl

/-- A null in the column that becomes a key fails on both paths, and only the feature path says
which row it was. -/
theorem differ_of_null :
    MigratePlan.resolve mapping projection planner {} false {} = .ok plan ∧
      plan.needsRecord = false ∧
      MigrateJob.borrowed plan lookup ⟨[some [0, 0, 0, 1], none]⟩ ≠
        MigrateJob.materialised plan lookup ⟨[some [0, 0, 0, 1], none]⟩ := by
  refine ⟨rfl, rfl, ?_⟩
  intro h
  have herror := congrArg RowOutcome.error h
  revert herror
  decide

end PathSample

end Cdm
