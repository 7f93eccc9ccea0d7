import Cdm.Cql.Rows
import Cdm.Engine.RangeCall
import Mathlib.Data.Rat.Defs

/-!
# The guardrail job

`GuardrailJob::process` reads the rows of a range, each reduced to its primary key and the lengths of
its cells, and counts the rows that have a column above the threshold.  It looks at the cancellation
token after a row has arrived and before the row is counted; when the run has been killed it leaves
its loop, and the range passes.

What is logged about a finding is left out, and with it the table, the mode and the number format
that only the log reads.  The threshold is a double in the program: here it is the number that the
double stands for, and a length, which is below `2 ^ 53`, is compared with it exactly.
-/

namespace Cdm

/-- One origin row reduced to what a size check needs. -/
structure RowSizes where
  key : PrimaryKey
  lengths : List ℕ
  deriving DecidableEq

/-- One column that exceeded the threshold. -/
structure LargeColumn where
  name : String
  bytes : ℕ
  deriving DecidableEq, Repr

/-- A row that violated the guardrail, and the columns that did it. -/
structure Finding where
  key : PrimaryKey
  columns : List LargeColumn
  deriving DecidableEq

/-- The resolved guardrail. -/
structure ColumnSizeGuardrail where
  columns : List String
  thresholdBytes : ℚ
  enabled : Bool

/-- Checks one row; the columns beyond the list, and those the row does not have, are not measured. -/
def ColumnSizeGuardrail.check (g : ColumnSizeGuardrail) (row : RowSizes) : Option Finding :=
  if !g.enabled then none
  else
    let columns := (g.columns.zip row.lengths).filterMap fun (name, bytes) =>
      if (bytes : ℚ) > g.thresholdBytes then some ⟨name, bytes⟩ else none
    if columns.isEmpty then none else some ⟨row.key, columns⟩

/-- The guardrail job, less the reader of the origin. -/
structure GuardrailJob where
  guardrail : ColumnSizeGuardrail
  enabled : guardrail.enabled = true

namespace GuardrailJob

end GuardrailJob

namespace GuardrailRange

/-- Where a range is. -/
inductive Phase
  /-- About to ask for the next row. -/
  | reading
  /-- The row has arrived, and is not counted yet. -/
  | arrived (row : RowSizes)
  | ended (result : RangeResult)

end GuardrailRange

/-- The counters of a range, the rows it has measured, and where it is. -/
structure GuardrailRange where
  counters : JobCounters
  /-- A ghost: the rows that have been counted as read and checked. -/
  measured : List RowSizes
  phase : GuardrailRange.Phase

namespace GuardrailRange

/-- The steps of a range that do not take a row. -/
inductive Act
  /-- The row is counted as read and checked. -/
  | measure
  /-- A request slot could not be had, or a read failed. -/
  | fail (error : CdmError)
  | panic (message : String)

/-- A range that is about to be read. -/
def init : GuardrailRange := ⟨.new .guardrail, [], .reading⟩

/-- The next row, or the end of the scan. -/
def read (s : GuardrailRange) (row : Option RowSizes) : Option GuardrailRange :=
  match s.phase, row with
  | .reading, some row => some { s with phase := .arrived row }
  | .reading, none => some { s with phase := .ended (.verdict .pass) }
  | _, _ => none

/-- The other steps. -/
def step (guardrail : ColumnSizeGuardrail) (s : GuardrailRange) : Act → Option GuardrailRange
  | .measure =>
    match s.phase with
    | .arrived row =>
      let kind := if (guardrail.check row).isSome then .large else .valid
      some { counters := (s.counters.incrementKind .read 1).incrementKind kind 1
             measured := s.measured ++ [row]
             phase := .reading }
    | _ => none
  | .fail error =>
    match s.phase with
    | .reading => some { s with phase := .ended (.error error) }
    | _ => none
  | .panic message =>
    match s.phase with
    | .ended _ => none
    | _ => some { s with phase := .ended (.panic message) }

/-- Whether the token is looked at next. -/
def polls (s : GuardrailRange) : Bool := s.phase matches .arrived _

/-- What the range came to. -/
def result (s : GuardrailRange) : Option RangeResult :=
  match s.phase with
  | .ended result => some result
  | _ => none

end GuardrailRange

/-- The guardrail job on a range.  When the run has been killed the loop is left, and the range
passes. -/
def GuardrailJob.rangeJob (job : GuardrailJob) : RangeJob GuardrailRange GuardrailRange.Act RowSizes where
  init := .init
  read := GuardrailRange.read
  step := GuardrailRange.step job.guardrail
  polls := GuardrailRange.polls
  cancel s := { s with phase := .ended (.verdict .pass) }
  result := GuardrailRange.result
  counters s := s.counters

end Cdm
