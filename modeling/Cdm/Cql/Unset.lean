import Cdm.Cql.Bound

/-!
# What is bound as unset

A write must not leave a tombstone, and it must not leave stale data either.  A column is bound as
unset when there is nothing to write: its source supplies no value, or what it supplies is, once
converted and stripped, a list, set or map without elements.  A key column always carries a value.
-/

namespace Cdm

open Fallible

/-- The value a source supplies for a row, null when it supplies none.  A cell behind the end of the
row is not there. -/
def TargetSource.supplied (row : Row) (inputs : BindInputs) : TargetSource → RawCell
  | origin index => (row.cells[index]?).join
  | explodeKey => inputs.explodeKey
  | explodeValue => inputs.explodeValue
  | extractJson _ => inputs.extractedJson
  | constant _ | absent => none

/-- The serialized value is a list, set or map without elements: it has a count of zero, or it is
too short to have one. -/
def IsEmptyCollection (cqlType : CqlTypeInfo) (bytes : Bytes) : Prop :=
  isJavaCollection cqlType = true ∧
    ∀ count rest, Wire.takeI32 bytes = .ok (count, rest) → count = 0

theorem isEmptyCollection_iff {bytes : Bytes} :
    isEmptyCollection bytes = true ↔
      ∀ count rest, Wire.takeI32 bytes = .ok (count, rest) → count = 0 := by
  rw [isEmptyCollection, Wire.takeI32, Wire.take]
  split_ifs with hlen
  · simp [Except.map]
  · simp [Except.map]

namespace Binder

variable {binder : Binder} {column : ColumnBind}

/-- The value as it is written: converted by the plan of the column, and with null map values
removed where that is configured.  What is converted to null is written as no bytes. -/
def Written (binder : Binder) (column : ColumnBind) (bytes out : Bytes) : Prop :=
  ∃ cell, column.plan.apply (some bytes) = .ok cell ∧ binder.stripped column (cell.getD []) = .ok out

/-- The conversion of a column is the application of its plan. -/
theorem convert_eq_apply (column : ColumnBind) (bytes : Bytes) :
    convert column bytes = (column.plan.apply (some bytes)).map fun cell => cell.getD [] := by
  rw [convert]
  split_ifs with hid
  · rw [ConversionPlan.apply_of_isIdentity hid]
    rfl
  · rfl

/-- A value that is there is bound as unset exactly when nothing is left of it. -/
theorem presentValue_eq_unset_iff {bytes : Bytes} {value : BoundValue}
    (h : binder.presentValue column bytes = .ok value) :
    value = .unset ↔ ∃ out, binder.stripped column bytes = .ok out ∧
      IsEmptyCollection column.cqlType out := by
  obtain ⟨out, hout, h⟩ := bind_eq_ok.1 h
  have hiff : (∃ out', binder.stripped column bytes = .ok out' ∧
      IsEmptyCollection column.cqlType out') ↔ IsEmptyCollection column.cqlType out := by
    rw [hout]
    simp
  rw [hiff, IsEmptyCollection, ← isEmptyCollection_iff, ← Bool.and_eq_true]
  split_ifs at h with hempty
  · cases h
    simp [hempty]
  · cases h
    simp [hempty]

section Null

variable {row : Row} {inputs : BindInputs}

/-- A key column carries a value. -/
theorem bindColumn_of_isKey (hkey : column.isKey = true) {value : BoundValue}
    (h : binder.bindColumn column row inputs = .ok value) : ∃ bytes, value = .value bytes := by
  rcases bindColumn_eq_ok h with ⟨-, habsent⟩ | ⟨converted, -, hpresent⟩
  · obtain ⟨bytes, -, rfl⟩ := absentValue_of_isKey hkey habsent
    exact ⟨bytes, rfl⟩
  · obtain ⟨bytes, -, rfl⟩ := presentValue_of_isKey hkey hpresent
    exact ⟨bytes, rfl⟩

/-- A null cell of the origin is never bound as bytes, unless it is a key cell that is substituted.
-/
theorem bindColumn_of_null {i : ℕ} (hsource : column.source = .origin i)
    (hnull : row.cells[i]? = some none) {value : BoundValue}
    (h : binder.bindColumn column row inputs = .ok value) :
    value = .unset ∨ column.isKey = true ∧ ∃ bytes,
      binder.missingKey.substitute column.cqlType = some bytes ∧ value = .value bytes := by
  rcases bindColumn_eq_ok h with ⟨-, habsent⟩ | ⟨converted, hraw, -⟩
  · cases hkey : column.isKey with
    | false =>
      rw [absentValue, hkey] at habsent
      cases habsent
      exact .inl rfl
    | true => exact .inr ⟨rfl, absentValue_of_isKey hkey habsent⟩
  · rcases (rawValue_origin_eq_ok hsource).1 hraw with ⟨-, hnone⟩ | ⟨_, _, hcell, -, -⟩
    · cases hnone
    · rw [hnull] at hcell
      cases hcell

end Null

section Resolved

variable [AlphanumericTable] {mapping : ColumnMapping} {planner : Planner} {target : ColumnMeta}
  {index : ℕ} {row : Row} {inputs : BindInputs}

/-- What a column reads, in terms of what its source supplies. -/
theorem rawValue_supplied (hres : Resolves mapping planner target index column) {raw : Option Bytes}
    (h : rawValue column row inputs = .ok raw) :
    (column.source.supplied row inputs = none ∧ raw = none) ∨
      ∃ bytes converted, column.source.supplied row inputs = some bytes ∧
        convert column bytes = .ok converted ∧ raw = some converted := by
  have hplain (hsource : ∀ i, column.source ≠ .origin i) (bytes : Bytes) :
      convert column bytes = .ok bytes := by
    rw [convert, hres.plan_passthrough hsource]
    rfl
  have hinput (hsource : ∀ i, column.source ≠ .origin i)
      (hraw : raw = column.source.supplied row inputs) :
      (column.source.supplied row inputs = none ∧ raw = none) ∨
        ∃ bytes converted, column.source.supplied row inputs = some bytes ∧
          convert column bytes = .ok converted ∧ raw = some converted := by
    cases hsupplied : column.source.supplied row inputs with
    | none => exact .inl ⟨rfl, hraw.trans hsupplied⟩
    | some bytes => exact .inr ⟨bytes, bytes, rfl, hplain hsource bytes, hraw.trans hsupplied⟩
  cases hsource : column.source with
  | origin i =>
    rcases (rawValue_origin_eq_ok hsource).1 h with ⟨hcell, rfl⟩ | ⟨bytes, converted, hcell, hc, rfl⟩
    · exact .inl ⟨by simp [TargetSource.supplied, hcell], rfl⟩
    · exact .inr ⟨bytes, converted, by simp [TargetSource.supplied, hcell], hc, rfl⟩
  | _ =>
    rw [← hsource]
    refine hinput (fun i hi => by rw [hsource] at hi; cases hi) ?_
    rw [rawValue, hsource] at h
    rw [hsource]
    exact (Except.ok.inj h).symm

/-- A column that is not part of the key is unset exactly when its source supplies nothing, or
nothing is left of what it supplies. -/
theorem bindColumn_eq_unset_iff (hres : Resolves mapping planner target index column)
    (hkey : column.isKey = false) {value : BoundValue}
    (h : binder.bindColumn column row inputs = .ok value) :
    value = .unset ↔ column.source.supplied row inputs = none ∨
      ∃ bytes out, column.source.supplied row inputs = some bytes ∧ binder.Written column bytes out ∧
        IsEmptyCollection column.cqlType out := by
  rcases bindColumn_eq_ok h with ⟨hraw, habsent⟩ | ⟨converted, hraw, hpresent⟩
  · rcases rawValue_supplied hres hraw with ⟨hnone, -⟩ | ⟨_, _, -, -, hsome⟩
    · rw [absentValue, hkey] at habsent
      cases habsent
      simp [hnone]
    · cases hsome
  · rcases rawValue_supplied hres hraw with ⟨-, hnone⟩ | ⟨bytes, _, hsome, hconvert, heq⟩
    · cases hnone
    · cases heq
      rw [presentValue_eq_unset_iff hpresent]
      rw [convert_eq_apply, map_eq_ok] at hconvert
      obtain ⟨cell, happly, rfl⟩ := hconvert
      constructor
      · rintro ⟨out, hstrip, hempty⟩
        exact .inr ⟨bytes, out, hsome, ⟨cell, happly, hstrip⟩, hempty⟩
      · rintro (hnone | ⟨bytes', out, hsome', ⟨cell', happly', hstrip⟩, hempty⟩)
        · rw [hsome] at hnone
          cases hnone
        · rw [hsome] at hsome'
          cases hsome'
          rw [happly] at happly'
          cases happly'
          exact ⟨out, hstrip, hempty⟩

end Resolved

/-- What is bound at a marker of a column. -/
theorem bind_getElem? {row : Row} {inputs : BindInputs} {values : BoundWrite}
    (h : binder.bind row inputs = .ok values) {i index : ℕ} {slot : BindSlot}
    (hslot : binder.statement.slots[i]? = some slot) (hindex : slot.columnIndex = some index) :
    ∃ column value, binder.columns[index]? = some column ∧
      binder.bindColumn column row inputs = .ok value ∧ values[i]? = some value := by
  obtain ⟨hlen, -⟩ := List.getElem?_eq_some_iff.1 hslot
  have hmapM := mapM_eq_ok h
  have hvalues : i < values.length := by
    rw [← hmapM.length_eq, List.length_zipIdx]
    exact hlen
  obtain ⟨⟨found, n⟩, hfound, hvalue⟩ :=
    mapM_getElem? h i (List.getElem?_eq_getElem hvalues)
  rw [List.getElem?_zipIdx, hslot] at hfound
  cases hfound
  refine (?_ : ∃ column, _ ∧ _).imp fun column hcolumn =>
    ⟨_, hcolumn.1, hcolumn.2, List.getElem?_eq_getElem hvalues⟩
  cases slot with
  | column index' =>
    cases hindex
    exact bindIndexed_eq_ok.1 hvalue
  | keyColumn index' =>
    cases hindex
    exact bindIndexed_eq_ok.1 hvalue
  | ttl => cases hindex
  | writetime => cases hindex

/-- The discipline of unset values, at every marker of a column of a statement that binds: which
columns are unset, that key columns are not, and that a null cell is not bound as bytes. -/
theorem unset_discipline [AlphanumericTable] {mapping : ColumnMapping} {statement : TargetUpsert}
    {planner : Planner} {missingKey : MissingKeyPolicy} {mapRemoveNullValue : Bool}
    (hbinder : new mapping statement planner missingKey mapRemoveNullValue = .ok binder) {row : Row}
    {inputs : BindInputs} {values : BoundWrite} (hbind : binder.bind row inputs = .ok values)
    {i index : ℕ} {slot : BindSlot} (hslot : statement.slots[i]? = some slot)
    (hindex : slot.columnIndex = some index) :
    ∃ target column value, mapping.targetColumns[index]? = some target ∧
      Resolves mapping planner target index column ∧ values[i]? = some value ∧
      (target.kind.isKey = false →
        (value = .unset ↔ column.source.supplied row inputs = none ∨
          ∃ bytes out, column.source.supplied row inputs = some bytes ∧
            binder.Written column bytes out ∧ IsEmptyCollection column.cqlType out)) ∧
      (target.kind.isKey = true → ∃ bytes, value = .value bytes) ∧
      ∀ cell, column.source = .origin cell → row.cells[cell]? = some none →
        value = .unset ∨ target.kind.isKey = true ∧ ∃ bytes,
          missingKey.substitute column.cqlType = some bytes ∧ value = .value bytes := by
  obtain ⟨-, hstatement, hmissing, -⟩ := new_eq_ok hbinder
  subst hstatement hmissing
  obtain ⟨column, value, hcolumn, hvalue, heq⟩ := bind_getElem? hbind hslot hindex
  obtain ⟨target, htarget, hres⟩ := resolves_getElem? hbinder hcolumn
  have hkey := hres.isKey
  refine ⟨target, column, value, htarget, hres, heq, ?_, ?_, ?_⟩
  · intro h
    exact bindColumn_eq_unset_iff hres (hkey.trans h) hvalue
  · intro h
    exact bindColumn_of_isKey (hkey.trans h) hvalue
  · intro cell hsource hnull
    rw [← hkey]
    exact bindColumn_of_null hsource hnull hvalue

end Binder

/-! ### A map that is stripped of its entries -/

namespace UnsetSample

local instance : AlphanumericTable := AlphanumericTable.ascii

def idColumn : ColumnMeta := ⟨"id", "text", .partitionKey, 0⟩

def tagsColumn : ColumnMeta := ⟨"tags", "map<text, text>", .regular, -1⟩

def table : TableSchema where
  keyspace := "ks"
  table := "t"
  columns := [idColumn, tagsColumn]
  nodup := by decide

def mapping : ColumnMapping where
  originColumns := table.columns
  sources := [.origin 0, .origin 1]
  originTable := table
  targetTable := table
  length_sources := by decide
  originIndex_lt := by decide
  key_derivable := by decide

def statement : TargetUpsert := TargetUpsert.insert mapping ⟨false, false⟩

def planner : Planner := ⟨⟨[]⟩, false⟩

def tagsType : CqlTypeInfo := .map (.primitive .text) (.primitive .text) false

def idBind : ColumnBind := ⟨"id", .primitive .text, "text", .passthrough, .origin 0, true⟩

def tagsBind : ColumnBind :=
  ⟨"tags", tagsType, "map<text, text>", .passthrough, .origin 1, false⟩

def binder : Binder where
  statement := statement
  columns := [idBind, tagsBind]
  missingKey := {}
  mapRemoveNullValue := true

theorem binder_eq : Binder.new mapping statement planner {} true = .ok binder := by
  have hid : Binder.resolveColumn mapping planner (idColumn, 0) = .ok idBind := rfl
  have htags : Binder.resolveColumn mapping planner (tagsColumn, 1) = .ok tagsBind := by
    have hparse : CqlTypeInfo.parse tagsColumn.cqlType = .ok tagsType := by decide
    have hside (side : Side) : parseType tagsColumn side = .ok tagsType :=
      mapError_eq_ok.2 hparse
    have hsame : tagsType.sameType tagsType = true := by decide
    have htypes : planner.planTypes tagsType tagsType = .passthrough := by
      rw [Planner.planTypes.eq_def, hsame]
      rfl
    have hplan : Binder.planFor mapping planner tagsType (.origin 1) = .ok .passthrough := by
      have horigin : mapping.originColumns[1]? = some tagsColumn := rfl
      rw [Binder.planFor, horigin]
      exact map_eq_ok.2 ⟨tagsType, hside _, htypes⟩
    exact bind_eq_ok.2 ⟨tagsType, hside _, bind_eq_ok.2 ⟨.passthrough, hplan, rfl⟩⟩
  exact bind_eq_ok.2 ⟨_, mapM_eq_ok_iff.2 (.cons hid (.cons htags .nil)), rfl⟩

/-- The entry `'a': null` alone, under a null key. -/
def row : Row := ⟨[none, some [0, 0, 0, 1, 0, 0, 0, 1, 97, 255, 255, 255, 255]]⟩

theorem bind_row : binder.bind row {} = .ok [.value [], .unset] := by decide

/-- The map is unset, and the key is the empty string. -/
theorem unset_discipline_tags :
    ∃ target column, ∃ value : BoundValue, mapping.targetColumns[1]? = some target ∧
      Binder.Resolves mapping planner target 1 column ∧
      [BoundValue.value [], .unset][1]? = some value ∧
      (target.kind.isKey = false →
        (value = .unset ↔ column.source.supplied row {} = none ∨
          ∃ bytes out, column.source.supplied row {} = some bytes ∧
            binder.Written column bytes out ∧ IsEmptyCollection column.cqlType out)) ∧
      (target.kind.isKey = true → ∃ bytes, value = .value bytes) ∧
      ∀ cell, column.source = .origin cell → row.cells[cell]? = some none →
        value = .unset ∨ target.kind.isKey = true ∧ ∃ bytes,
          MissingKeyPolicy.substitute {} column.cqlType = some bytes ∧ value = .value bytes := by
  have hslot : binder.statement.slots[1]? = some (.column 1) := by decide
  exact Binder.unset_discipline binder_eq bind_row hslot rfl

end UnsetSample

end Cdm
