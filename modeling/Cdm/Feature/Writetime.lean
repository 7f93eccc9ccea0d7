import Cdm.Feature.Facts
import Cdm.Cql.Statement

/-!
# TTL and writetime

The `TTL(…)` and `WRITETIME(…)` expressions of the selected columns are appended to the origin
projection; the TTL and the writetime of a row are the maximum of the cells they read.
-/

namespace Cdm

open Fallible

/-- The TTL/writetime feature's configuration. -/
structure WritetimeTtl where
  automaticTtl : Bool
  ttlNames : List String
  automaticWritetime : Bool
  writetimeNames : List String
  useCollections : Bool
  /-- In microseconds; a positive one replaces what the cells say. -/
  customWritetime : ℤ
  writetimeIncrement : ℤ
  /-- In seconds; a positive one replaces what the cells say. -/
  customTtl : ℤ

/-- One selected `TTL()` or `WRITETIME()` expression and where its value lands. -/
structure SelectedColumn where
  index : ℕ
  collection : Bool
  deriving DecidableEq, Repr

/-- The resolved feature: a projection, the positions it produces and the overrides. -/
structure WritetimeTtlPlan where
  projection : List String := []
  ttlColumns : List SelectedColumn := []
  writetimeColumns : List SelectedColumn := []
  customWritetime : ℤ := 0
  writetimeIncrement : ℤ := 0
  customTtl : ℤ := 0
  deriving DecidableEq, Repr

namespace WritetimeTtl

variable (config : WritetimeTtl)

/-- The origin columns whose `TTL()` is selected. -/
def ttlColumns (origin : TableFacts) : List String :=
  if config.automaticTtl then origin.ttlWritetimeColumns config.useCollections else config.ttlNames

/-- The origin columns whose `WRITETIME()` is selected. -/
def writetimeColumns (origin : TableFacts) : List String :=
  if config.automaticWritetime then origin.ttlWritetimeColumns config.useCollections
  else config.writetimeNames

/-- Whether the named column yields a scalar rather than a list of per-element values. -/
def yieldsScalar (origin : TableFacts) (name : String) : Except CdmError Bool :=
  match origin.column name with
  | some column => .ok (!column.cqlType.isCollection || column.cqlType.isFrozen)
  | none => .error (CdmError.withColumn ⟨.schemaMismatch,
      s!"TTL/writetime column `{name}` is not on the origin table {origin.table}", {}⟩ name)

/-- The expression at `position` behind the first `base` cells. -/
def select (origin : TableFacts) (base : ℕ) (name : String × ℕ) : Except CdmError SelectedColumn :=
  (yieldsScalar origin name.1).map fun scalar => ⟨base + name.2, !scalar⟩

/-- Resolves the projection this feature adds, the `TTL(…)` expressions first, and the positions its
values land in. -/
def resolve (origin : TableFacts) : Except CdmError WritetimeTtlPlan :=
  if origin.isCounterTable then .ok {}
  else do
    let base := origin.columns.length
    let ttlNames := config.ttlColumns origin
    let writetimeNames := config.writetimeColumns origin
    let ttl ← ttlNames.zipIdx.mapM (select origin base)
    let writetime ← (writetimeNames.zipIdx ttlNames.length).mapM (select origin base)
    return {
      projection := ttlNames.map (fun name => s!"TTL({name})") ++
        writetimeNames.map fun name => s!"WRITETIME({name})"
      ttlColumns := ttl
      writetimeColumns := writetime
      customWritetime := max config.customWritetime 0
      writetimeIncrement := max config.writetimeIncrement 0
      customTtl := max config.customTtl 0 }

end WritetimeTtl

namespace WritetimeTtlPlan

variable (plan : WritetimeTtlPlan)

/-- Whether the plan resolves a writetime for every row. -/
def hasWritetime : Bool := plan.customWritetime > 0 || !plan.writetimeColumns.isEmpty

/-- Whether the plan resolves a TTL for every row. -/
def hasTtl : Bool := plan.customTtl > 0 || !plan.ttlColumns.isEmpty

/-- What the `USING` clause of the target statement must contain. -/
def usingClause : UsingClause := ⟨plan.hasTtl, plan.hasWritetime⟩

def readI64 (bytes : Bytes) : Except CdmError ℤ :=
  if bytes.length = 8 then .ok (BigEndian.toInt bytes)
  else .error ⟨.typeConversion, s!"expected an 8-byte writetime, got {bytes.length} bytes", {}⟩

def readI32 (bytes : Bytes) : Except CdmError ℤ :=
  if bytes.length = 4 then .ok (BigEndian.toInt bytes)
  else .error ⟨.typeConversion, s!"expected a 4-byte TTL, got {bytes.length} bytes", {}⟩

/-- The greater of the maximum so far and one more value. -/
def raise (maximum : Option ℤ) (value : ℤ) : Option ℤ :=
  some (maximum.elim value (max · value))

/-- The maximum so far and the elements of a list, nulls skipped. -/
def maximumOfElements (decode : Bytes → Except CdmError ℤ) :
    Option ℤ → List RawCell → Except CdmError (Option ℤ)
  | maximum, [] => .ok maximum
  | maximum, none :: elements => maximumOfElements decode maximum elements
  | maximum, some element :: elements => do
    let value ← decode element
    maximumOfElements decode (raise maximum value) elements

/-- The maximum so far and one selected cell. -/
def maximumStep (row : Row) (decode : Bytes → Except CdmError ℤ) (maximum : Option ℤ)
    (column : SelectedColumn) : Except CdmError (Option ℤ) :=
  match row.cells[column.index]? with
  | none => .error ⟨.internal, s!"TTL/writetime projection expects {column.index + 1} columns; " ++
      s!"the row has {row.cells.length}", {}⟩
  | some none => .ok maximum
  | some (some bytes) =>
    if column.collection then do
      let elements ← FeatureWire.listElements bytes
      maximumOfElements decode maximum elements
    else (decode bytes).map (raise maximum)

/-- The maximum of the selected cells, decoding a collection column's list of values. -/
def maximum (row : Row) (selected : List SelectedColumn) (decode : Bytes → Except CdmError ℤ) :
    Except CdmError (Option ℤ) :=
  selected.foldlM (maximumStep row decode) none

/-- The row's writetime, in microseconds.  A custom one is not incremented. -/
def writetime (row : Row) : Except CdmError (Option ℤ) :=
  if plan.customWritetime > 0 then .ok (some plan.customWritetime)
  else if plan.writetimeColumns.isEmpty then .ok none
  else (maximum row plan.writetimeColumns readI64).map fun maximum =>
    maximum.map fun value => saturateI64 (value + plan.writetimeIncrement)

/-- The row's TTL, in seconds; zero when every selected cell is null. -/
def ttl (row : Row) : Except CdmError (Option ℤ) :=
  if plan.customTtl > 0 then .ok (some (min plan.customTtl (2 ^ 31 - 1)))
  else if plan.ttlColumns.isEmpty then .ok none
  else (maximum row plan.ttlColumns readI32).map fun maximum => some (maximum.getD 0)

variable {plan}

theorem ttl_of_hasTtl_eq_false (h : plan.hasTtl = false) (row : Row) : plan.ttl row = .ok none := by
  rw [hasTtl, Bool.or_eq_false_iff] at h
  rw [ttl, if_neg (by simpa using h.1), if_pos (by simpa using h.2)]

theorem writetime_of_hasWritetime_eq_false (h : plan.hasWritetime = false) (row : Row) :
    plan.writetime row = .ok none := by
  rw [hasWritetime, Bool.or_eq_false_iff] at h
  rw [writetime, if_neg (by simpa using h.1), if_pos (by simpa using h.2)]

/-! ### What they depend on -/

theorem maximum_congr {row row' : Row} {selected : List SelectedColumn}
    (hcells : ∀ column ∈ selected, row.cells[column.index]? = row'.cells[column.index]?)
    (hlength : row.cells.length = row'.cells.length) (decode : Bytes → Except CdmError ℤ) :
    maximum row selected decode = maximum row' selected decode := by
  rw [maximum, maximum]
  generalize (none : Option ℤ) = start
  induction selected generalizing start with
  | nil => rfl
  | cons column selected ih =>
    have hstep : maximumStep row decode start column = maximumStep row' decode start column := by
      rw [maximumStep, maximumStep, hcells column List.mem_cons_self, hlength]
    rw [List.foldlM_cons, List.foldlM_cons, hstep]
    congr 1
    funext next
    exact ih (fun c hc => hcells c (List.mem_cons_of_mem _ hc)) next

/-- Every cell the plan reads lies behind the first `base`. -/
def ReadsBehind (base : ℕ) (plan : WritetimeTtlPlan) : Prop :=
  ∀ column ∈ plan.ttlColumns ++ plan.writetimeColumns, base ≤ column.index

theorem readsBehind_of_resolve {config : WritetimeTtl} {origin : TableFacts}
    (h : config.resolve origin = .ok plan) : plan.ReadsBehind origin.columns.length := by
  rw [WritetimeTtl.resolve] at h
  split_ifs at h
  · cases h
    intro column hcolumn
    cases hcolumn
  · obtain ⟨ttl, httl, h⟩ := bind_eq_ok.1 h
    obtain ⟨writetime, hwritetime, h⟩ := bind_eq_ok.1 h
    cases h
    have behind {names : List (String × ℕ)} {selected : List SelectedColumn}
        (hsel : names.mapM (WritetimeTtl.select origin origin.columns.length) = .ok selected)
        (column : SelectedColumn) (hcolumn : column ∈ selected) :
        origin.columns.length ≤ column.index := by
      obtain ⟨i, hi⟩ := List.mem_iff_getElem?.1 hcolumn
      obtain ⟨name, -, hname⟩ := mapM_getElem? hsel i hi
      obtain ⟨scalar, -, rfl⟩ := map_eq_ok.1 hname
      exact Nat.le_add_right ..
    intro column hcolumn
    rcases List.mem_append.1 hcolumn with hc | hc
    · exact behind httl column hc
    · exact behind hwritetime column hc

section Congr

variable {base : ℕ} {row row' : Row}

/-- The TTL depends on the cells behind the columns of the table only. -/
theorem ttl_congr (hplan : plan.ReadsBehind base) (hlength : row.cells.length = row'.cells.length)
    (hcells : ∀ index, base ≤ index → row.cells[index]? = row'.cells[index]?) :
    plan.ttl row = plan.ttl row' := by
  rw [ttl, ttl, maximum_congr _ hlength]
  exact fun column hcolumn => hcells _ (hplan column (List.mem_append_left _ hcolumn))

/-- The writetime depends on the cells behind the columns of the table only. -/
theorem writetime_congr (hplan : plan.ReadsBehind base)
    (hlength : row.cells.length = row'.cells.length)
    (hcells : ∀ index, base ≤ index → row.cells[index]? = row'.cells[index]?) :
    plan.writetime row = plan.writetime row' := by
  rw [writetime, writetime, maximum_congr _ hlength]
  exact fun column hcolumn => hcells _ (hplan column (List.mem_append_right _ hcolumn))

end Congr

end WritetimeTtlPlan

end Cdm
