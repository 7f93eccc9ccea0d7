import Cdm.Core.Domain
import Cdm.Feature.Facts

/-!
# The column-value filter

Rows whose named text column equals a configured value are left out.  The column is looked up once,
in the columns the run reads.
-/

namespace Cdm

/-- A property without the whitespace around it; `none` if nothing remains. -/
def trimmedProperty (raw : Option String) : Option String :=
  (raw.map fun value => String.ofList (Text.trim value.toList)).filter fun value => !value.isEmpty

/-- The column-value filter. -/
structure ColumnValueFilter where
  column : String
  value : String
  /-- The position of the column in the origin projection. -/
  index : Option ℕ
  deriving DecidableEq, Repr

namespace ColumnValueFilter

/-- Reads the two properties and resolves the position of the column. -/
def load (name value : Option String) (origin : TableFacts) : ColumnValueFilter :=
  let column := (trimmedProperty name).getD ""
  { column
    value := (trimmedProperty value).getD ""
    index := origin.indexOf column }

variable (filter : ColumnValueFilter)

variable {filter}

theorem indexOf_of_load {name value : Option String} {origin : TableFacts} {index : ℕ}
    (h : (load name value origin).index = some index) :
    origin.indexOf (load name value origin).column = some index := h

end ColumnValueFilter

end Cdm
