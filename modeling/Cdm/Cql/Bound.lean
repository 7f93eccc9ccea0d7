import Cdm.Cql.Rows

/-!
# What is bound for a column

The binder lists its values in the order of the markers of the statement.  `Binder.valueOf` picks the
one of a column, which stands in the list of columns of an `INSERT`, or in the `SET` list or the `WHERE`
clause of an `UPDATE`.
-/

namespace Cdm

open List

/-- The target column a bind marker takes its value from. -/
def BindSlot.columnIndex : BindSlot → Option ℕ
  | column index | keyColumn index => some index
  | ttl | writetime => none

namespace TargetUpsert

section

variable {mapping : ColumnMapping} {u : UsingClause} {statement : TargetUpsert} {index : ℕ}
  (hindex : index < mapping.targetColumns.length) (hconstant : isConstant mapping index = false)

include hindex hconstant

/-- A column that is not a constant takes a bind marker in an `UPDATE`: in the `SET` list, or in the
`WHERE` clause if it belongs to the key. -/
theorem exists_slot_update (h : update mapping u = .ok statement) :
    ∃ slot ∈ statement.slots, slot.columnIndex = some index := by
  rw [update] at h
  dsimp only at h
  split at h
  · cases h
  obtain ⟨clause, -, h⟩ := Fallible.bind_eq_ok.1 h
  cases h
  have hget := getElem?_eq_getElem hindex
  by_cases hkey : mapping.targetColumns[index].kind.isKey = true
  · refine ⟨.keyColumn index, mem_append_right _ (mem_map_of_mem ?_), rfl⟩
    have hmem : mapping.targetColumns[index] ∈ mapping.targetTable.primaryKey :=
      mapping.targetTable.mem_primaryKey.2 ⟨getElem_mem hindex, hkey⟩
    rw [mem_filter]
    refine ⟨mem_filterMap.2 ⟨_, hmem, ColumnMapping.findIdx?_name hget⟩, by simp [hconstant]⟩
  · refine ⟨.column index, mem_append_left _ (mem_append_right _ (mem_map.2
      ⟨(mapping.targetColumns[index], index), ?_, rfl⟩)), rfl⟩
    rw [boundColumns, mem_filter, mem_filter, mem_zipIdx_iff_getElem?]
    exact ⟨⟨hget, by simpa using hkey⟩, by simp [hconstant]⟩

/-- A column that is not a constant takes a bind marker in the statement of the mapping. -/
theorem exists_slot (h : new mapping u = .ok statement) :
    ∃ slot ∈ statement.slots, slot.columnIndex = some index := by
  rw [new] at h
  split at h
  · exact exists_slot_update hindex hconstant h
  · cases h
    exact ⟨_, column_mem_slots_insert hindex hconstant, rfl⟩

end

end TargetUpsert

namespace Binder

variable (binder : Binder)

/-- The value that is bound for the target column at `index`. -/
def valueOf (values : BoundWrite) (index : ℕ) : Option BoundValue :=
  ((binder.statement.slots.zip values).find? (·.1.columnIndex = some index)).map Prod.snd

variable {binder}

/-- Where a marker stands is of no account for its value. -/
theorem bindSlot_congr {row : Row} {inputs : BindInputs} {slot : BindSlot} {i j : ℕ}
    {value : BoundValue} (h : binder.bindSlot row inputs (slot, i) = .ok value) :
    binder.bindSlot row inputs (slot, j) = .ok value := by
  cases slot with
  | column index => exact bindIndexed_eq_ok.2 (bindIndexed_eq_ok.1 h)
  | keyColumn index => exact bindIndexed_eq_ok.2 (bindIndexed_eq_ok.1 h)
  | ttl => exact h
  | writetime => exact h

/-- What is bound for a column that takes a marker. -/
theorem valueOf_eq {row : Row} {inputs : BindInputs} {values : BoundWrite}
    (h : binder.bind row inputs = .ok values) {index : ℕ}
    (hslot : ∃ slot ∈ binder.statement.slots, slot.columnIndex = some index) :
    ∃ column value, binder.columns[index]? = some column ∧
      binder.bindColumn column row inputs = .ok value ∧ binder.valueOf values index = some value := by
  obtain ⟨slot, hmem, hslot⟩ := hslot
  have hmapM := Fallible.mapM_zipIdx_eq_ok
    (g := fun slot => binder.bindSlot row inputs (slot, 0)) (fun _ _ _ => bindSlot_congr) h
  obtain ⟨found, value, hfound, hvalue, heq⟩ := Fallible.mapM_find?
    (p := fun slot => slot.columnIndex = some index) hmapM ⟨slot, hmem, by simpa using hslot⟩
  refine (?_ : ∃ column, _ ∧ _).imp fun column hcolumn => ⟨value, hcolumn.1, hcolumn.2, heq⟩
  rw [decide_eq_true_eq] at hfound
  cases found with
  | column i =>
    cases hfound
    exact bindIndexed_eq_ok.1 hvalue
  | keyColumn i =>
    cases hfound
    exact bindIndexed_eq_ok.1 hvalue
  | ttl => cases hfound
  | writetime => cases hfound

/-- What is bound for a target column that is not a constant, and how the column was resolved. -/
theorem valueOf_resolved [AlphanumericTable] {mapping : ColumnMapping} {u : UsingClause}
    {statement : TargetUpsert} {planner : Planner} {missingKey : MissingKeyPolicy}
    {mapRemoveNullValue : Bool} (hstatement : TargetUpsert.new mapping u = .ok statement)
    (hbinder : new mapping statement planner missingKey mapRemoveNullValue = .ok binder) {row : Row}
    {inputs : BindInputs} {values : BoundWrite} (hbind : binder.bind row inputs = .ok values)
    {index : ℕ} {target : ColumnMeta} (htarget : mapping.targetColumns[index]? = some target)
    (hconstant : TargetUpsert.isConstant mapping index = false) :
    ∃ column value, Resolves mapping planner target index column ∧
      binder.bindColumn column row inputs = .ok value ∧ binder.valueOf values index = some value := by
  obtain ⟨hlt, -⟩ := List.getElem?_eq_some_iff.1 htarget
  have hslot := TargetUpsert.exists_slot hlt hconstant hstatement
  rw [← (new_eq_ok hbinder).2.1] at hslot
  obtain ⟨column, value, hcolumn, hvalue, heq⟩ := valueOf_eq hbind hslot
  obtain ⟨target', htarget', hres⟩ := resolves_getElem? hbinder hcolumn
  rw [htarget] at htarget'
  cases htarget'
  exact ⟨column, value, hres, hvalue, heq⟩

end Binder

end Cdm
