import Cdm.Cql.KeyPlan
import Cdm.Core.Error

/-!
# The row sink of a validate run

`CqlRowSink` looks a target row up by its key and upserts the correction of a record.  The record it
is handed has been scanned: null key cells of the row that have a mirrored substitute have been
replaced.
-/

namespace Cdm

open Fallible List

/-! ### Binding the scanned row -/

/-- The position of a target column, by its name. -/
theorem ColumnMapping.findIdx?_name {mapping : ColumnMapping} {index : ℕ} {target : ColumnMeta}
    (h : mapping.targetColumns[index]? = some target) :
    mapping.targetColumns.findIdx? (·.name = target.name) = some index := by
  obtain ⟨hlt, rfl⟩ := List.getElem?_eq_some_iff.1 h
  rw [findIdx?_eq_some_iff_getElem]
  refine ⟨hlt, by simp, ?_⟩
  intro j hj
  have hnodup : (mapping.targetColumns.map ColumnMeta.name).Nodup := mapping.targetTable.nodup
  simp only [decide_eq_true_eq]
  intro heq
  have hsame := inj_on_of_nodup_map hnodup (getElem_mem (by omega))
    (getElem_mem hlt) heq
  have hindex : j = index := hnodup.of_map.getElem_inj_iff.1 hsame
  omega

/-- Where a target column takes its value from, by name and by position. -/
theorem ColumnMapping.sourceOf_name {mapping : ColumnMapping} {index : ℕ} {target : ColumnMeta}
    (h : mapping.targetColumns[index]? = some target) :
    mapping.sourceOf target.name = mapping.source index := by
  rw [sourceOf, sourceNamed, findIdx?_name h]
  rfl

namespace Binder

/-- The substitute of a key column is bound as it is, also when it is read from the row. -/
theorem presentValue_substitute {binder : Binder} {column : ColumnBind} {bytes : Bytes}
    (h : binder.missingKey.substitute column.cqlType = some bytes) :
    binder.presentValue column bytes = .ok (.value bytes) := by
  have htype : isMap column.cqlType = false ∧ isJavaCollection column.cqlType = false := by
    unfold MissingKeyPolicy.substitute at h
    split at h
    all_goals simp_all [isMap, isJavaCollection]
  simp only [presentValue, stripped, htype.1, htype.2, Bool.and_false, Bool.false_and]
  rfl

section Resolved

variable [AlphanumericTable] {mapping : ColumnMapping} {planner : Planner} {target : ColumnMeta}
  {index : ℕ} {column : ColumnBind}

/-- A resolved column has the source the mapping names for it. -/
theorem Resolves.sourceOf (h : Resolves mapping planner target index column)
    (htarget : mapping.targetColumns[index]? = some target) :
    mapping.sourceOf column.name = some column.source := by
  obtain ⟨hlt, -⟩ := List.getElem?_eq_some_iff.1 htarget
  have hlts : index < mapping.sources.length := by
    rw [mapping.length_sources]
    exact hlt
  rw [h.name, ColumnMapping.sourceOf_name htarget, h.source, ColumnMapping.source,
    getElem?_eq_getElem hlts]
  rfl

end Resolved

end Binder

namespace TargetKeyPlan

/-- A type that has a substitute is not converted to itself. -/
theorem planTypes_of_substitute {planner : Planner} {policy : MissingKeyPolicy}
    {cqlType : CqlTypeInfo} {bytes : Bytes}
    (h : policy.substitute cqlType = some bytes) :
    planner.planTypes cqlType cqlType = .passthrough := by
  have hsame : cqlType.sameType cqlType = true := by
    unfold MissingKeyPolicy.substitute at h
    split at h
    · rfl
    · rfl
    · rfl
    · cases h
  rw [Planner.planTypes.eq_def, hsame]
  rfl

section Scanned

variable [AlphanumericTable] {mapping : ColumnMapping} {select : TargetSelectByPk}
  {statement : TargetUpsert} {planner : Planner} {missingKey : MissingKeyPolicy}
  {mapRemoveNullValue : Bool} {binder : Binder} {plan : TargetKeyPlan}
  (hselect : TargetSelectByPk.new mapping = .ok select)
  (hbinder : Binder.new mapping statement planner missingKey mapRemoveNullValue = .ok binder)
  (hplan : resolve mapping select missingKey = .ok plan)

/-- What a mirrored substitute comes from: one type on both sides, and one reader. -/
theorem substituteFor_mirror {name : String} {i : ℕ} {substitute : KeySubstitute}
    (h : substituteFor mapping name i missingKey = .ok (some substitute))
    (hmirror : substitute.mirror = true) :
    ∃ target originColumn cqlType bytes, mapping.targetColumns.find? (·.name = name) = some target ∧
      parseType target .target = .ok cqlType ∧ mapping.originColumns[i]? = some originColumn ∧
      parseType originColumn .origin = .ok cqlType ∧
      missingKey.substitute cqlType = some bytes ∧ substitute.value = some bytes := by
  unfold substituteFor at h
  split at h
  · cases h
  · rename_i target htarget
    obtain ⟨cqlType, htype, h⟩ := bind_eq_ok.1 h
    split at h
    · cases h
    · rename_i bytes hbytes
      obtain ⟨sameType, hsame, h⟩ := bind_eq_ok.1 h
      cases h
      obtain ⟨rfl, -⟩ := Bool.and_eq_true_iff.1 hmirror
      unfold hasOriginType at hsame
      split at hsame
      · cases hsame
      · rename_i originColumn hcolumn
        obtain ⟨originType, horigin, heq⟩ := map_eq_ok.1 hsame
        rw [decide_eq_true_eq] at heq
        subst heq
        exact ⟨target, originColumn, originType, bytes, htarget, htype, hcolumn, horigin, hbytes, rfl⟩

include hselect hplan

/-- The key plan admits no extracted property as a source of a key column. -/
theorem isKey_of_isExtractJson {target : ColumnMeta} {index : ℕ} {column : ColumnBind}
    (hres : Binder.Resolves mapping planner target index column)
    (htarget : mapping.targetColumns[index]? = some target)
    (hjson : column.source.isExtractJson = true) : column.isKey = false := by
  by_contra hkey
  have hkind : target.kind.isKey = true := by simpa [hres.isKey] using hkey
  have hmem : target ∈ mapping.targetTable.primaryKey :=
    mapping.targetTable.mem_primaryKey.2 ⟨mem_of_getElem? htarget, hkind⟩
  have hsource := hres.sourceOf htarget
  obtain ⟨i, hi⟩ : ∃ i, column.source = .extractJson i := by
    cases hsrc : column.source <;> simp_all [TargetSource.isExtractJson]
  rw [hi, hres.name] at hsource
  have hname := TargetSelectByPk.name_mem_boundKeyColumns hselect hmem hsource rfl
  have hslot := (mapM_eq_ok_map (.explodeKey, none) (resolve_eq_ok hplan)).2 _ hname
  rw [resolveSlot, hsource] at hslot
  cases hslot

include hbinder

/-- A column binds the same for the scanned row and the row it comes from: the replacement of a null
key cell is read by one column, which would have substituted the same bytes. -/
theorem bindColumn_scanned {index : ℕ} {column : ColumnBind}
    (hcolumn : binder.columns[index]? = some column) (row : Row) (inputs : BindInputs) :
    binder.bindColumn column (plan.scanned row) inputs = binder.bindColumn column row inputs := by
  obtain ⟨target, htarget, hres⟩ := Binder.resolves_getElem? hbinder hcolumn
  obtain ⟨-, -, hpolicy, -⟩ := Binder.new_eq_ok hbinder
  cases hsource : column.source with
  | origin i =>
    rcases kept_scanned plan row i with hsame | ⟨hnull, substitute, hslot, hmirror, hcell⟩
    · have hraw : Binder.rawValue column (plan.scanned row) inputs =
          Binder.rawValue column row inputs := by
        simp only [Binder.rawValue, hsource, hsame]
      rw [Binder.bindColumn, Binder.bindColumn, hraw]
    · -- the slot is that of a key column which alone reads the cell, so it is this column
      obtain ⟨n, hn⟩ := mem_iff_getElem?.1 hslot
      obtain ⟨name, hname, hresolve⟩ := mapM_getElem? (resolve_eq_ok hplan) n hn
      obtain ⟨hsourceOf, hsub⟩ := resolveSlot_origin hresolve
      have hthis := hres.sourceOf htarget
      rw [hsource] at hthis
      have heq := name_eq_of_soleReader (soleReader_of_mirror hsub hmirror) hsourceOf hthis
      subst heq
      obtain ⟨found, originColumn, cqlType, bytes, hfind, htype, horigin, hotype, hbytes, hvalue⟩ :=
        substituteFor_mirror hsub hmirror
      have hmem : target ∈ mapping.targetTable.columns := mem_of_getElem? htarget
      obtain ⟨key, hkey, hkname⟩ :=
        TargetSelectByPk.mem_boundKeyColumns hselect (mem_of_getElem? hname)
      obtain ⟨hkmem, hiskey⟩ := mapping.targetTable.mem_primaryKey.1 hkey
      obtain rfl : key = target :=
        mapping.targetTable.eq_of_name_eq hkmem hmem (hkname.trans hres.name)
      obtain rfl : found = key := by
        refine mapping.targetTable.eq_of_name_eq (mem_of_find?_eq_some hfind) hmem ?_
        have hfname : found.name = column.name := by simpa using find?_some hfind
        exact hfname.trans hkname.symm
      obtain rfl : column.cqlType = cqlType := Except.ok.inj (hres.cqlType.symm.trans htype)
      rw [← hpolicy] at hbytes
      have hconvert : Binder.convert column bytes = .ok bytes := by
        obtain ⟨_, _, hocolumn, hoparse, hcplan⟩ := hres.plan_origin hsource
        rw [horigin] at hocolumn
        cases hocolumn
        rw [hotype] at hoparse
        cases hoparse
        rw [Binder.convert, hcplan, planTypes_of_substitute hbytes]
        rfl
      have hraw : Binder.rawValue column (plan.scanned row) inputs = .ok (some bytes) :=
        (Binder.rawValue_origin_eq_ok hsource).2
          (.inr ⟨bytes, bytes, hcell.trans (by rw [hvalue]), hconvert, rfl⟩)
      have hraw' : Binder.rawValue column row inputs = .ok none :=
        (Binder.rawValue_origin_eq_ok hsource).2 (.inl ⟨hnull, rfl⟩)
      have habsent : binder.absentValue column = .ok (.value bytes) := by
        rw [Binder.absentValue, hres.isKey, hiskey, hbytes]
        rfl
      rw [Binder.bindColumn, Binder.bindColumn, hraw, hraw']
      show (binder.presentValue column bytes).mapError some = (binder.absentValue column).mapError some
      rw [Binder.presentValue_substitute hbytes, habsent]
  | _ =>
    have hraw : Binder.rawValue column (plan.scanned row) inputs =
        Binder.rawValue column row inputs := by
      simp only [Binder.rawValue, hsource]
    rw [Binder.bindColumn, Binder.bindColumn, hraw]

/-- The binder binds the same for the scanned row and the row it comes from. -/
theorem bind_scanned (row : Row) (inputs : BindInputs) :
    binder.bind (plan.scanned row) inputs = binder.bind row inputs := by
  have indexed (bindIndex index : ℕ) :
      binder.bindIndexed (plan.scanned row) inputs bindIndex index =
        binder.bindIndexed row inputs bindIndex index := by
    rw [Binder.bindIndexed, Binder.bindIndexed]
    cases hcolumn : binder.columns[index]? with
    | none => rfl
    | some column => simp only [bindColumn_scanned hselect hbinder hplan hcolumn]
  rw [Binder.bind, Binder.bind]
  congr 1
  funext slot
  obtain ⟨slot, bindIndex⟩ := slot
  cases slot with
  | column index => exact indexed bindIndex index
  | keyColumn index => exact indexed bindIndex index
  | ttl => rfl
  | writetime => rfl

/-- The columns of the extracted property are no key columns, and take a bind marker each. -/
theorem bindsExtracted {u : UsingClause} (hstatement : statement = TargetUpsert.insert mapping u) :
    binder.BindsExtracted := by
  constructor
  · intro column hcolumn hjson
    obtain ⟨index, hindex⟩ := mem_iff_getElem?.1 hcolumn
    obtain ⟨target, htarget, hres⟩ := Binder.resolves_getElem? hbinder hindex
    exact isKey_of_isExtractJson hselect hplan hres htarget hjson
  · intro index column hindex hjson
    obtain ⟨target, htarget, hres⟩ := Binder.resolves_getElem? hbinder hindex
    obtain ⟨hlt, -⟩ := List.getElem?_eq_some_iff.1 htarget
    rw [(Binder.new_eq_ok hbinder).2.1, hstatement]
    refine TargetUpsert.column_mem_slots_insert hlt ?_
    rw [hres.source] at hjson
    rw [TargetUpsert.isConstant]
    cases hsource : mapping.source index with
    | none => rfl
    | some source =>
      rw [hsource, Option.getD_some] at hjson
      cases source <;> simp_all [TargetSource.isExtractJson, TargetSource.isConstant]

end Scanned

/-- Scanning a row keeps its width. -/
theorem length_scanned (plan : TargetKeyPlan) (row : Row) :
    (plan.scanned row).cells.length = row.cells.length := by
  have hlt (index : ℕ) : index < (plan.scanned row).cells.length ↔ index < row.cells.length := by
    rw [← not_le, ← not_le, ← List.getElem?_eq_none_iff, ← List.getElem?_eq_none_iff]
    rcases kept_scanned plan row index with hsame | ⟨hnull, substitute, -, -, hcell⟩
    · rw [hsame]
    · simp [hnull, hcell]
  exact Nat.le_antisymm (le_of_forall_lt fun i hi => (hlt i).1 hi)
    (le_of_forall_lt fun i hi => (hlt i).2 hi)

section Unscanned

variable [AlphanumericTable] {mapping : ColumnMapping} {select : TargetSelectByPk}
  {missingKey : MissingKeyPolicy} {plan : TargetKeyPlan}
  (hplan : resolve mapping select missingKey = .ok plan) (row : Row)

include hplan

/-- A cell that scanning replaces is one of the columns of the table, of a type that has a
substitute. -/
theorem getElem?_scanned (index : ℕ) :
    (plan.scanned row).cells[index]? = row.cells[index]? ∨
      ∃ column cqlType bytes, mapping.originColumns[index]? = some column ∧
        parseType column .origin = .ok cqlType ∧ missingKey.substitute cqlType = some bytes := by
  rcases kept_scanned plan row index with hsame | ⟨-, substitute, hslot, hmirror, -⟩
  · exact .inl hsame
  · obtain ⟨n, hn⟩ := mem_iff_getElem?.1 hslot
    obtain ⟨name, -, hresolve⟩ := mapM_getElem? (resolve_eq_ok hplan) n hn
    obtain ⟨-, hsub⟩ := resolveSlot_origin hresolve
    obtain ⟨-, column, cqlType, bytes, -, -, hcolumn, htype, hbytes, -⟩ :=
      substituteFor_mirror hsub hmirror
    exact .inr ⟨column, cqlType, bytes, hcolumn, htype, hbytes⟩

/-- Scanning leaves the cells behind the columns of the table alone. -/
theorem getElem?_scanned_of_le {index : ℕ} (h : mapping.originColumns.length ≤ index) :
    (plan.scanned row).cells[index]? = row.cells[index]? := by
  rcases getElem?_scanned hplan row index with hsame | ⟨column, _, _, hcolumn, -, -⟩
  · exact hsame
  · rw [getElem?_eq_none h] at hcolumn
    cases hcolumn

/-- Scanning leaves a map alone. -/
theorem getElem?_scanned_of_map {index : ℕ} {column : ColumnMeta}
    (hcolumn : mapping.originColumns[index]? = some column) {key value : CqlTypeInfo} {frozen : Bool}
    (htype : CqlTypeInfo.parse column.cqlType = .ok (.map key value frozen)) :
    (plan.scanned row).cells[index]? = row.cells[index]? := by
  rcases getElem?_scanned hplan row index with hsame | ⟨column', cqlType, bytes, hcolumn', hparse, h⟩
  · exact hsame
  · rw [hcolumn] at hcolumn'
    cases hcolumn'
    rw [parseType, mapError_eq_ok, htype] at hparse
    cases hparse
    cases h

end Unscanned

/-- The record a scan hands on for one origin row.  The components of the key that come from an
exploded entry are null. -/
def scanRecord (plan : TargetKeyPlan) (row : Row) : Record :=
  Record.new (plan.keyOf (plan.scanned row) {}) (plan.scanned row)

end TargetKeyPlan

/-! ### The sink -/

/-- The TTL and the writetime one origin row is written with. -/
structure RowTimestamps where
  ttl : Row → Except CdmError (Option ℤ)
  writetime : Row → Except CdmError (Option ℤ)

/-- A counter column, and where its two operands live. -/
structure CounterColumn where
  originIndex : ℕ
  targetIndex : ℕ
  deriving DecidableEq, Repr

/-- The target side of a run: the lookup by primary key and the upsert. -/
structure CqlRowSink where
  binder : Binder
  counters : List CounterColumn
  timestamps : Option RowTimestamps

namespace CqlRowSink

/-- The column at `index`, when it is a counter that the origin supplies. -/
def counterColumn (mapping : ColumnMapping) (column : ColumnMeta × ℕ) : Option CounterColumn :=
  if Text.toLower column.1.cqlType.toList = "counter".toList then
    match mapping.sourceOf column.1.name with
    | some (.origin originIndex) => some ⟨originIndex, column.2⟩
    | _ => none
  else none

/-- Prepares the sink; the statements themselves are the driver's business. -/
def prepare (binder : Binder) (mapping : ColumnMapping) (timestamps : Option RowTimestamps) :
    CqlRowSink where
  binder
  counters :=
    if binder.statement.counter then mapping.targetColumns.zipIdx.filterMap (counterColumn mapping)
    else []
  timestamps

/-- A `bigint`-shaped counter value. -/
def counterValue (cell : RawCell) : Option ℤ :=
  match cell with
  | some bytes => if bytes.length = 8 then some (BigEndian.toInt bytes) else none
  | none => none

/-- Turns the cell of one counter into a delta. -/
def counterDelta (target : Row) (cells : List RawCell) (counter : CounterColumn) : List RawCell :=
  let originValue := ((cells[counter.originIndex]?).bind counterValue).getD 0
  let targetValue := ((target.cells[counter.targetIndex]?).bind counterValue).getD 0
  cells.set counter.originIndex (some (Wire.writeI64 (saturateI64 (originValue - targetValue))))

variable (sink : CqlRowSink)

/-- The origin row a counter write should bind, with each counter turned into a delta; `none` when
the table has no counters or there is no target row. -/
def counterDeltas (record : Record) : Option Row :=
  match record.target with
  | none => none
  | some target =>
    if sink.counters.isEmpty then none
    else some ⟨sink.counters.foldl (counterDelta target) record.origin.cells⟩

/-- The TTL and the writetime of a row; both absent without a plan. -/
def timestampsOf (timestamps : Option RowTimestamps) (row : Row) :
    Except CdmError (Option ℤ × Option ℤ) :=
  match timestamps with
  | none => .ok (none, none)
  | some plan => do
    let ttl ← plan.ttl row
    let writetime ← plan.writetime row
    return (ttl, writetime)

/-- What a correction binds besides the row.  The TTL and the writetime are those of the origin row,
also when the counters of the row have been turned into deltas. -/
def inputs (record : Record) (ttl writetime : Option ℤ) : BindInputs where
  key := some record.key
  ttl
  writetime
  explodeKey := record.exploded.bind ExplodedEntry.key
  explodeValue := record.exploded.bind ExplodedEntry.value

/-- Writes one record: the parameters its upsert is executed with. -/
def write (record : Record) : Except CdmError BoundWrite := do
  let source := (sink.counterDeltas record).getD record.origin
  let (ttl, writetime) ← timestampsOf sink.timestamps record.origin
  (sink.binder.bind source (inputs record ttl writetime)).mapError BindFailure.toError

end CqlRowSink

end Cdm
