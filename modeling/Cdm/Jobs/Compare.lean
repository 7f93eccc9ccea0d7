import Cdm.Cql.Bind
import Cdm.Feature.ExtractJson

/-!
# Comparing a record with the target row fetched for it

The value of the target is converted into the type of the origin, and the origin's value is compared
as it was read; two cells are equal when their bytes are.  Everything that does not depend on the row
is resolved into a `ComparisonPlan`: one rule and one conversion for each target column.
-/

namespace Cdm

/-- Which half of an exploded map entry a target column takes its value from. -/
inductive ExplodedHalf
  | key
  | value
  deriving DecidableEq, Repr

namespace ExplodedHalf

def cellOf : ExplodedHalf → ExplodedEntry → RawCell
  | key, entry => entry.key
  | value, entry => entry.value

/-- Why the column could not be compared, when the record carries no entry. -/
def unobtainable : ExplodedHalf → String
  | key => "the explode-map key is not carried on the record"
  | value => "the explode-map value is not carried on the record"

end ExplodedHalf

/-- How the target column's value is obtained and whether it is compared at all. -/
inductive CompareRule
  /-- A constant column is not compared. -/
  | constant
  | mapped (originIndex : ℕ)
  | extractJson
  /-- Nothing on the origin supplies this column. -/
  | unsourced
  | exploded (half : ExplodedHalf)
  deriving DecidableEq, Repr

/-- One target column, resolved for comparison. -/
structure ColumnCompare where
  name : String
  targetIndex : ℕ
  rule : CompareRule
  /-- Converts the target's value into the origin's type. -/
  plan : ConversionPlan

/-- Every target column, resolved once. -/
structure ComparisonPlan where
  columns : List ColumnCompare
  extractJson : Option ExtractJsonPlan
  extractJsonOverwrites : Bool
  keysOnly : Bool

/-- How a column differs. -/
inductive DifferenceKind
  | value (targetIsNull : Bool)
  | originNull
  /-- The column could not be compared at all. -/
  | error (message : String) (targetIndex : ℕ) (originIndex : ℤ)
  deriving DecidableEq, Repr

/-- One column's disagreement, with the two cells that disagreed. -/
structure ColumnDifference where
  column : String
  origin : RawCell
  target : RawCell
  kind : DifferenceKind
  deriving DecidableEq, Repr

/-- What comparing one record concluded. -/
inductive Comparison
  | valid
  | missing
  | mismatch (differences : List ColumnDifference)
  deriving DecidableEq, Repr

def Comparison.isDiscrepancy : Comparison → Bool
  | valid => false
  | _ => true

namespace ComparisonPlan

/-! ### Resolving -/

section Resolve

variable [AlphanumericTable]

/-- A column's declared type. -/
def parseType (column : ColumnMeta) (side : Side) : Except CdmError CqlTypeInfo :=
  (CqlTypeInfo.parse column.cqlType).mapError fun error =>
    ((⟨.schemaMismatch, s!"cannot parse the {side.asStr} type `{column.cqlType}` of column " ++
      s!"`{column.name}` for comparison: {error}", {}⟩ : CdmError).withSide side).withColumn column.name

def outOfRange (index : ℕ) (mapping : ColumnMapping) : CdmError :=
  ⟨.schemaMismatch, s!"the column mapping refers to origin column {index}, but the origin " ++
    s!"projection has only {mapping.originColumns.length} columns", {}⟩

/-- The rule and the conversion of a column.  Only a mapped column is converted: everything else is
already in the target's representation. -/
def ruleFor (mapping : ColumnMapping) (planner : Planner) (target : CqlTypeInfo) :
    TargetSource → Except CdmError (CompareRule × ConversionPlan)
  | .constant _ => .ok (.constant, .passthrough)
  | .origin index =>
    match mapping.originColumns[index]? with
    | none => .error (outOfRange index mapping)
    | some column =>
      (parseType column .origin).map fun origin => (.mapped index, planner.planTypes target origin)
  | .extractJson _ => .ok (.extractJson, .passthrough)
  | .explodeKey => .ok (.exploded .key, .passthrough)
  | .explodeValue => .ok (.exploded .value, .passthrough)
  | .absent => .ok (.unsourced, .passthrough)

/-- Resolves one target column. -/
def resolveColumn (mapping : ColumnMapping) (planner : Planner) (column : ColumnMeta × ℕ) :
    Except CdmError ColumnCompare := do
  let target ← parseType column.1 .target
  let (rule, plan) ← ruleFor mapping planner target ((mapping.source column.2).getD .absent)
  return { name := column.1.name, targetIndex := column.2, rule, plan }

/-- Resolves the plan. -/
def resolve (mapping : ColumnMapping) (planner : Planner) (extractJson : Option ExtractJsonPlan)
    (extractJsonOverwrites : Bool) : Except CdmError ComparisonPlan := do
  let columns ← mapping.targetColumns.zipIdx.mapM (resolveColumn mapping planner)
  return { columns, extractJson, extractJsonOverwrites, keysOnly := false }

end Resolve

/-- Compares existence only. -/
def withKeysOnly (plan : ComparisonPlan) (keysOnly : Bool) : ComparisonPlan :=
  { plan with keysOnly }

/-! ### Comparing -/

/-- The bytes of the target in the origin's type. -/
def converted (column : ColumnCompare) (target : Bytes) : Except CdmError RawCell :=
  if column.plan.isIdentity then .ok (some target) else column.plan.apply (some target)

/-- The comparison proper, once both sides have been located. -/
def compareValues (column : ColumnCompare) (origin target : RawCell) (originIndex : ℤ) :
    Option ColumnDifference :=
  match origin, target with
  | none, none => none
  | none, some bytes => some ⟨column.name, none, some bytes, .originNull⟩
  | some bytes, none => some ⟨column.name, some bytes, none, .value true⟩
  | some bytes, some current =>
    match converted column current with
    | .error e =>
      some ⟨column.name, some bytes, some current,
        .error (toString e) column.targetIndex originIndex⟩
    | .ok cell =>
      if cell = some bytes then none
      else some ⟨column.name, some bytes, some current, .value false⟩

variable [LiteralParsers] [SerdeJson]

/-- The extract-JSON column.  A populated column that is not to be overwritten is not compared. -/
def compareExtracted (plan : ComparisonPlan) (column : ColumnCompare) (record : Record)
    (target : RawCell) : Option ColumnDifference :=
  if !plan.extractJsonOverwrites && target.isSome then none
  else
    match plan.extractJson with
    | none => none
    | some extract =>
      match extract.extractRecord record with
      | .ok extracted => compareValues column extracted.join target extract.originIndex
      | .error e =>
        some ⟨column.name, none, target,
          .error (toString e) column.targetIndex extract.originIndex⟩

/-- One column's contribution, or `none` when the two sides agree. -/
def compareColumn (plan : ComparisonPlan) (record : Record) (target : Row)
    (column : ColumnCompare) : Option ColumnDifference :=
  let targetCell := (target.cells[column.targetIndex]?).join
  match column.rule with
  | .constant => none
  | .exploded half =>
    match record.exploded with
    | some entry => compareValues column (half.cellOf entry) targetCell (-1)
    | none =>
      some ⟨column.name, none, targetCell, .error half.unobtainable column.targetIndex (-1)⟩
  | .unsourced => compareValues column none targetCell (-1)
  | .mapped originIndex =>
    match record.origin.cells[originIndex]? with
    | none =>
      some ⟨column.name, none, targetCell,
        .error "the origin row is narrower than the projection" column.targetIndex originIndex⟩
    | some cell => compareValues column cell targetCell originIndex
  | .extractJson => plan.compareExtracted column record targetCell

/-- Compares one record against the target row fetched for it. -/
def compare (plan : ComparisonPlan) (record : Record) (target : Option Row) : Comparison :=
  match target with
  | none => .missing
  | some row =>
    if plan.keysOnly then .valid
    else
      match plan.columns.filterMap (plan.compareColumn record row) with
      | [] => .valid
      | differences => .mismatch differences

/-! ### Valid records -/

omit [LiteralParsers] [SerdeJson] in
/-- Two values agree when both are null, or when the target's bytes convert to the origin's. -/
theorem compareValues_eq_none_iff {column : ColumnCompare} {origin target : RawCell}
    {originIndex : ℤ} :
    compareValues column origin target originIndex = none ↔
      (origin = none ∧ target = none) ∨
      ∃ bytes current, origin = some bytes ∧ target = some current ∧
        converted column current = .ok (some bytes) := by
  cases origin with
  | none => cases target <;> simp [compareValues]
  | some bytes =>
    cases target with
    | none => simp [compareValues]
    | some current =>
      simp only [compareValues]
      cases hconv : converted column current with
      | error e => simp [hconv]
      | ok cell => by_cases hcell : cell = some bytes <;> simp [hcell, hconv]

/-- A record is valid when the target has a row for it that differs in no column. -/
theorem compare_eq_valid_iff {plan : ComparisonPlan} {record : Record} {target : Option Row} :
    plan.compare record target = .valid ↔
      ∃ row, target = some row ∧
        (plan.keysOnly = true ∨
          ∀ column ∈ plan.columns, plan.compareColumn record row column = none) := by
  cases target with
  | none => simp [compare]
  | some row =>
    simp only [compare, Option.some.injEq, exists_eq_left']
    by_cases hkeys : plan.keysOnly = true
    · simp [hkeys]
    · simp only [hkeys, Bool.false_eq_true, if_false, false_or]
      cases hdiff : plan.columns.filterMap (plan.compareColumn record row) with
      | nil => simpa [List.filterMap_eq_nil_iff] using hdiff
      | cons d ds =>
        simp only [reduceCtorEq, false_iff]
        intro hall
        rw [List.filterMap_eq_nil_iff.2 hall] at hdiff
        cases hdiff

end ComparisonPlan

end Cdm
