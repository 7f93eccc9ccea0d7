import Cdm.Cql.Unset

/-!
# The target row after a write

A value that is bound as unset leaves the cell of its column, bytes set it, and to a counter they
are added.  A constant column is set to its literal, whatever is bound.
-/

namespace Cdm

/-- The value of a counter cell. -/
def counterHeld : RawCell → ℤ
  | none => 0
  | some bytes => BigEndian.toInt bytes

/-- What bytes make of a cell: they set it, or are added to it. -/
def setCell (adds : Bool) (current : RawCell) (bytes : Bytes) : RawCell :=
  if adds then some (Wire.writeI64 (counterHeld current + BigEndian.toInt bytes)) else some bytes

/-- What a bound value makes of a cell. -/
def BoundValue.applyTo (adds : Bool) (current : RawCell) : BoundValue → RawCell
  | unset => current
  | value bytes => setCell adds current bytes

/-- Whether the statement adds to the target column at `index`. -/
def TargetUpsert.adds (statement : TargetUpsert) (mapping : ColumnMapping) (index : ℕ) : Bool :=
  statement.counter &&
    (mapping.targetColumns[index]?).any fun column => !column.kind.isKey && column.isCounter

namespace Binder

variable (binder : Binder) (mapping : ColumnMapping) (literals current : ℕ → RawCell)

/-- The cell of the target column at `index` after a write; `literals` holds what the cluster reads
the literals of constant columns as. -/
def cellAfter (values : BoundWrite) (index : ℕ) : RawCell :=
  if TargetUpsert.isConstant mapping index then literals index
  else ((binder.valueOf values index).getD .unset).applyTo (binder.statement.adds mapping index)
    (current index)

/-- What a column makes of a cell, given what its source supplies. -/
inductive Makes (column : ColumnBind) (row : Row) (inputs : BindInputs) (adds : Bool)
    (cell : RawCell) : RawCell → Prop
  | nothing (h : column.source.supplied row inputs = none) (hkey : column.isKey = false) :
      Makes column row inputs adds cell cell
  | substitute {bytes : Bytes} (h : column.source.supplied row inputs = none)
      (hkey : column.isKey = true)
      (hbytes : binder.missingKey.substitute column.cqlType = some bytes) :
      Makes column row inputs adds cell (setCell adds cell bytes)
  | empty {bytes out : Bytes} (h : column.source.supplied row inputs = some bytes)
      (hwritten : binder.Written column bytes out) (hempty : IsEmptyCollection column.cqlType out) :
      Makes column row inputs adds cell cell
  | written {bytes out : Bytes} (h : column.source.supplied row inputs = some bytes)
      (hwritten : binder.Written column bytes out)
      (hempty : ¬ IsEmptyCollection column.cqlType out) :
      Makes column row inputs adds cell (setCell adds cell out)

/-- What a write makes of the cell of the target column at `index`. -/
def MakesAt (row : Row) (inputs : BindInputs) (index : ℕ) (after : RawCell) : Prop :=
  if TargetUpsert.isConstant mapping index then after = literals index
  else ∃ column, binder.columns[index]? = some column ∧
    binder.Makes column row inputs (binder.statement.adds mapping index) (current index) after

variable {binder mapping literals current}

theorem written_unique {column : ColumnBind} {bytes out out' : Bytes}
    (h : binder.Written column bytes out) (h' : binder.Written column bytes out') : out = out' := by
  obtain ⟨cell, happly, hstrip⟩ := h
  obtain ⟨cell', happly', hstrip'⟩ := h'
  cases happly.symm.trans happly'
  exact Except.ok.inj (hstrip.symm.trans hstrip')

section

variable {column : ColumnBind} {row : Row} {inputs : BindInputs} {adds : Bool}
  {cell after : RawCell} {value : BoundValue}

/-- A column makes one thing of a cell. -/
theorem makes_unique {after' : RawCell} (h : binder.Makes column row inputs adds cell after)
    (h' : binder.Makes column row inputs adds cell after') : after = after' := by
  cases h with
  | nothing hnone hkey =>
    cases h' with
    | nothing => rfl
    | substitute _ hkey' => cases hkey.symm.trans hkey'
    | empty hsome => cases hnone.symm.trans hsome
    | written hsome => cases hnone.symm.trans hsome
  | substitute hnone hkey hbytes =>
    cases h' with
    | nothing _ hkey' => cases hkey.symm.trans hkey'
    | substitute _ _ hbytes' => rw [Option.some.inj (hbytes.symm.trans hbytes')]
    | empty hsome => cases hnone.symm.trans hsome
    | written hsome => cases hnone.symm.trans hsome
  | empty hsome hwritten hempty =>
    cases h' with
    | nothing hnone => cases hnone.symm.trans hsome
    | substitute hnone => cases hnone.symm.trans hsome
    | empty => rfl
    | written hsome' hwritten' hempty' =>
      cases hsome.symm.trans hsome'
      exact absurd (written_unique hwritten hwritten' ▸ hempty) hempty'
  | written hsome hwritten hempty =>
    cases h' with
    | nothing hnone => cases hnone.symm.trans hsome
    | substitute hnone => cases hnone.symm.trans hsome
    | empty hsome' hwritten' hempty' =>
      cases hsome.symm.trans hsome'
      exact absurd (written_unique hwritten' hwritten ▸ hempty') hempty
    | written hsome' hwritten' _ =>
      cases hsome.symm.trans hsome'
      rw [written_unique hwritten hwritten']

variable [AlphanumericTable] {planner : Planner} {target : ColumnMeta} {index : ℕ}

/-- A column makes of a cell what its bound value does. -/
theorem makes_applyTo (hres : Resolves mapping planner target index column)
    (h : binder.bindColumn column row inputs = .ok value) :
    binder.Makes column row inputs adds cell (value.applyTo adds cell) := by
  rcases bindColumn_eq_ok h with ⟨hraw, habsent⟩ | ⟨converted, hraw, hpresent⟩
  · have hnone : column.source.supplied row inputs = none := by
      rcases rawValue_supplied hres hraw with ⟨hnone, -⟩ | ⟨_, _, -, -, hsome⟩
      · exact hnone
      · cases hsome
    cases hkey : column.isKey with
    | false =>
      rw [absentValue, hkey] at habsent
      cases habsent
      exact .nothing hnone hkey
    | true =>
      obtain ⟨bytes, hbytes, rfl⟩ := absentValue_of_isKey hkey habsent
      exact .substitute hnone hkey hbytes
  · rcases rawValue_supplied hres hraw with ⟨-, hnone⟩ | ⟨bytes, _, hsome, hconvert, heq⟩
    · cases hnone
    cases heq
    rw [convert_eq_apply, Fallible.map_eq_ok] at hconvert
    obtain ⟨converted, happly, rfl⟩ := hconvert
    have hunset := presentValue_eq_unset_iff hpresent
    obtain ⟨out, hout, hvalue⟩ := Fallible.bind_eq_ok.1 hpresent
    have hwritten : binder.Written column bytes out := ⟨converted, happly, hout⟩
    by_cases hempty : IsEmptyCollection column.cqlType out
    · rw [hunset.2 ⟨out, hout, hempty⟩]
      exact .empty hsome hwritten hempty
    · have hsame : value = .value out := by
        split_ifs at hvalue with hcollection
        · cases hvalue
          obtain ⟨out', hout', hempty'⟩ := hunset.1 rfl
          cases hout.symm.trans hout'
          exact absurd hempty' hempty
        · exact (Except.ok.inj hvalue).symm
      rw [hsame]
      exact .written hsome hwritten hempty

/-- A value of a primitive type that does not come from the origin is written as it is. -/
theorem Makes.of_primitive (hres : Resolves mapping planner target index column)
    {kind : Primitive}
    (hkind : column.cqlType = .primitive kind) (hsource : ∀ i, column.source ≠ .origin i)
    {bytes : Bytes} (hsupplied : column.source.supplied row inputs = some bytes) :
    binder.Makes column row inputs false cell (some bytes) := by
  have hidentity : ConversionPlan.passthrough.isIdentity = true := rfl
  have hwritten : binder.Written column bytes bytes := by
    refine ⟨some bytes, ?_, ?_⟩
    · rw [hres.plan_passthrough hsource]
      exact ConversionPlan.apply_of_isIdentity hidentity (some bytes)
    · rw [stripped, hkind]
      simp [isMap]
  refine .written hsupplied hwritten fun hempty => ?_
  have hcollection := hempty.1
  rw [hkind] at hcollection
  cases hcollection

variable {u : UsingClause} {statement : TargetUpsert} {missingKey : MissingKeyPolicy}
  {mapRemoveNullValue : Bool} {values : BoundWrite}
  (hstatement : TargetUpsert.new mapping u = .ok statement)
  (hbinder : new mapping statement planner missingKey mapRemoveNullValue = .ok binder)
  (hbind : binder.bind row inputs = .ok values)
  (htarget : mapping.targetColumns[index]? = some target)

include hstatement hbinder hbind htarget

/-- **The cell of a column after a write** is what the source of the column makes of it. -/
theorem cellAfter_eq_iff : binder.cellAfter mapping literals current values index = after ↔
    binder.MakesAt mapping literals current row inputs index after := by
  rw [cellAfter, MakesAt]
  by_cases hconstant : TargetUpsert.isConstant mapping index = true
  · rw [if_pos hconstant, if_pos hconstant, eq_comm]
  rw [if_neg hconstant, if_neg hconstant]
  obtain ⟨hlt, -⟩ := List.getElem?_eq_some_iff.1 htarget
  have hslot := TargetUpsert.exists_slot hlt (Bool.eq_false_of_not_eq_true hconstant) hstatement
  rw [← (new_eq_ok hbinder).2.1] at hslot
  obtain ⟨column, value, hcolumn, hvalue, heq⟩ := valueOf_eq hbind hslot
  obtain ⟨target', htarget', hres⟩ := resolves_getElem? hbinder hcolumn
  have hmakes : binder.Makes column row inputs (binder.statement.adds mapping index)
      (current index) _ := makes_applyTo hres hvalue
  rw [heq, Option.getD_some]
  constructor
  · rintro rfl
    exact ⟨column, hcolumn, hmakes⟩
  · rintro ⟨column', hcolumn', hmakes'⟩
    cases hcolumn.symm.trans hcolumn'
    exact makes_unique hmakes hmakes'

end

end Binder

end Cdm
