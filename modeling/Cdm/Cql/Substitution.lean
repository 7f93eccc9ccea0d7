import Cdm.Cql.Rows

/-!
# Substituting null keys in the row

A scan replaces the null key cells of a row where the replacement means the same in the row as in
the target: the types of the two columns agree, and no other column reads the cell.  Nothing that is
written can tell the replaced row from the row it comes from, and a row that has been replaced once
stays as it is.
-/

namespace Cdm

namespace TargetKeyPlan

/-! ### Scanning twice -/

section Cells

variable {plan : TargetKeyPlan} {row : Row}

theorem length_substituteStep {cells : Option (List RawCell)}
    (h : (cells.getD row.cells).length = row.cells.length)
    (slot : TargetKeySlot × Option KeySubstitute) :
    ((substituteStep row cells slot).getD row.cells).length = row.cells.length := by
  unfold substituteStep
  split
  · split_ifs
    · rw [Option.getD_some, List.length_set, h]
    · exact h
  · exact h

theorem length_foldl_substituteStep (slots : List (TargetKeySlot × Option KeySubstitute)) :
    ((slots.foldl (substituteStep row) none).getD row.cells).length = row.cells.length := by
  induction slots using List.reverseRecOn with
  | nil => rfl
  | append_singleton slots slot ih =>
    rw [List.foldl_concat]
    exact length_substituteStep ih slot

/-- A mirrored slot replaces the cell it reads, when that is null. -/
theorem substituteStep_mirrored {cells : Option (List RawCell)} {index : ℕ}
    {substitute : KeySubstitute} (hnull : cellAt row index = none)
    (hmirror : substitute.mirror = true) :
    substituteStep row cells (.origin index, some substitute) =
      some ((cells.getD row.cells).set index substitute.value) := by
  simp [substituteStep, hnull, hmirror]

/-- A null cell that a mirrored slot reads has been replaced, by that slot or by a later one. -/
theorem getElem?_foldl_mirrored (slots : List (TargetKeySlot × Option KeySubstitute)) {index : ℕ}
    {substitute : KeySubstitute} (hcell : row.cells[index]? = some none)
    (hslot : (.origin index, some substitute) ∈ slots) (hmirror : substitute.mirror = true) :
    ∃ last : KeySubstitute, (.origin index, some last) ∈ slots ∧ last.mirror = true ∧
      ((slots.foldl (substituteStep row) none).getD row.cells)[index]? = some last.value := by
  have hnull : cellAt row index = none := by
    rw [cellAt, hcell]
    rfl
  obtain ⟨hindex, -⟩ := List.getElem?_eq_some_iff.1 hcell
  induction slots using List.reverseRecOn with
  | nil => cases hslot
  | append_singleton slots slot ih =>
    have hlen := @length_foldl_substituteStep row slots
    rw [List.foldl_concat]
    by_cases hlast : ∃ last : KeySubstitute, slot = (.origin index, some last) ∧ last.mirror = true
    · obtain ⟨last, rfl, hmirrored⟩ := hlast
      refine ⟨last, by simp, hmirrored, ?_⟩
      rw [substituteStep_mirrored hnull hmirrored, Option.getD_some,
        List.getElem?_set_self (by omega)]
    · -- the last slot leaves this cell alone, so an earlier one has replaced it
      have hbefore : (.origin index, some substitute) ∈ slots := by
        rcases List.mem_append.1 hslot with hmem | hmem
        · exact hmem
        · exact absurd ⟨substitute, (List.mem_singleton.1 hmem).symm, hmirror⟩ hlast
      obtain ⟨last, hmem, hmirrored, hvalue⟩ := ih hbefore
      refine ⟨last, List.mem_append_left _ hmem, hmirrored, ?_⟩
      unfold substituteStep
      split
      · rename_i other found
        split_ifs with hset
        · rw [Bool.and_eq_true] at hset
          have hne : other ≠ index := by
            rintro rfl
            exact hlast ⟨found, rfl, hset.2⟩
          rw [Option.getD_some, List.getElem?_set_ne hne]
          exact hvalue
        · exact hvalue
      · exact hvalue

/-- The cells of the scanned row. -/
theorem cells_scanned (plan : TargetKeyPlan) (row : Row) :
    (plan.scanned row).cells = (plan.slots.foldl (substituteStep row) none).getD row.cells := by
  rw [scanned, substituted]
  cases plan.slots.foldl (substituteStep row) none <;> rfl

end Cells

variable [AlphanumericTable] {mapping : ColumnMapping} {select : TargetSelectByPk}
  {missingKey : MissingKeyPolicy} {plan : TargetKeyPlan}

/-- What a null key cell is replaced with is not null. -/
theorem exists_value_of_mirror (hplan : resolve mapping select missingKey = .ok plan) {index : ℕ}
    {substitute : KeySubstitute} (hslot : (.origin index, some substitute) ∈ plan.slots)
    (hmirror : substitute.mirror = true) : ∃ bytes, substitute.value = some bytes := by
  obtain ⟨n, hn⟩ := List.mem_iff_getElem?.1 hslot
  obtain ⟨name, -, hresolve⟩ := Fallible.mapM_getElem? (resolve_eq_ok hplan) n hn
  obtain ⟨-, hsub⟩ := resolveSlot_origin hresolve
  obtain ⟨-, -, -, bytes, -, -, -, -, -, hvalue⟩ := substituteFor_mirror hsub hmirror
  exact ⟨bytes, hvalue⟩

/-- A row that has been scanned is scanned to itself. -/
theorem scanned_scanned (hplan : resolve mapping select missingKey = .ok plan) (row : Row) :
    plan.scanned (plan.scanned row) = plan.scanned row := by
  have hcells : (plan.scanned (plan.scanned row)).cells = (plan.scanned row).cells := by
    apply List.ext_getElem?
    intro index
    rcases kept_scanned plan (plan.scanned row) index with hsame | ⟨hnull, substitute, hslot, hm, -⟩
    · exact hsame
    · -- a cell that is still null has been null before, and then it has been replaced
      exfalso
      have hcell : row.cells[index]? = some none := by
        rcases kept_scanned plan row index with hsame | ⟨hcell, -⟩
        · rw [← hsame, hnull]
        · exact hcell
      obtain ⟨last, hlast, hmirror, hvalue⟩ := getElem?_foldl_mirrored plan.slots hcell hslot hm
      obtain ⟨bytes, hbytes⟩ := exists_value_of_mirror hplan hlast hmirror
      rw [← cells_scanned, hnull, hbytes] at hvalue
      cases hvalue
  calc plan.scanned (plan.scanned row)
      = ⟨(plan.scanned (plan.scanned row)).cells⟩ := rfl
    _ = ⟨(plan.scanned row).cells⟩ := by rw [hcells]
    _ = plan.scanned row := rfl

/-! ### Writing the substituted row -/

variable {planner : Planner} {statement : TargetUpsert} {mapRemoveNullValue : Bool}
  {binder : Binder}

/-- The row in which null key cells have been replaced is written exactly as the row it comes from,
and needs no further replacement. -/
theorem bind_substituted (hselect : TargetSelectByPk.new mapping = .ok select)
    (hbinder : Binder.new mapping statement planner missingKey mapRemoveNullValue = .ok binder)
    (hplan : resolve mapping select missingKey = .ok plan) {row row' : Row}
    (hrow : plan.substituted row = some row') (inputs : BindInputs) :
    binder.bind row' inputs = binder.bind row inputs ∧
      (plan.substituted row').getD row' = row' := by
  have hscanned : plan.scanned row = row' := by
    rw [scanned, hrow]
    rfl
  rw [← hscanned]
  exact ⟨bind_scanned hselect hbinder hplan row inputs, scanned_scanned hplan row⟩

end TargetKeyPlan

namespace KeySample

local instance : AlphanumericTable := AlphanumericTable.ascii

/-- A null clustering key of type `text` is the empty string, in the row and in what is written. -/
theorem bind_substituted_null :
    plan.substituted ⟨[some [0, 0, 0, 7], none]⟩ = some ⟨[some [0, 0, 0, 7], some []]⟩ ∧
      binder.bind ⟨[some [0, 0, 0, 7], some []]⟩ {} = .ok [.value [55], .value []] ∧
      binder.bind ⟨[some [0, 0, 0, 7], some []]⟩ {} =
        binder.bind ⟨[some [0, 0, 0, 7], none]⟩ {} ∧
      (plan.substituted ⟨[some [0, 0, 0, 7], some []]⟩).getD ⟨[some [0, 0, 0, 7], some []]⟩ =
        ⟨[some [0, 0, 0, 7], some []]⟩ := by
  have hselect : TargetSelectByPk.new mapping = .ok select := rfl
  have hbinder : Binder.new mapping statement planner {} false = .ok binder := rfl
  have hplan : TargetKeyPlan.resolve mapping select {} = .ok plan := rfl
  exact ⟨rfl, rfl, TargetKeyPlan.bind_substituted hselect hbinder hplan rfl {}⟩

end KeySample

end Cdm
