import Mathlib.Algebra.Group.Int.Defs
import Mathlib.Algebra.Group.Nat.Defs
import Mathlib.Algebra.GroupWithZero.Nat
import Mathlib.Data.Int.Order.Basic
import Mathlib.Data.Prod.Lex
import Mathlib.Order.Lattice

/-!
# The domain types of `cdm-core`

Runs, token ranges, rows and records: the values every other module passes around.

Tokens and the bounds of a `TokenRange` are `i128` in the source; here they are integers, with the
bounds of the machine type as fields of the range, so that the places where the source uses checked
arithmetic can be told apart from those where it cannot overflow.  A cell is an opaque byte string
or null; giving it a meaning is the codec's business.
-/

namespace Cdm

/-! ### Sides, jobs and runs -/

/-- Which cluster an operation, error or metric concerns. -/
inductive Side
  | origin
  | target
  deriving DecidableEq, Repr

namespace Side

/-- The lowercase form used in property names and metric labels. -/
def asStr : Side → String
  | origin => "origin"
  | target => "target"

end Side

/-- One of the built-in job types. -/
inductive JobKind
  /-- Copy rows from origin to target. -/
  | migrate
  /-- Compare origin and target, optionally correcting differences. -/
  | validate
  /-- Inspect origin rows against configured limits without writing anything. -/
  | guardrail
  deriving DecidableEq, Repr

namespace JobKind

/-- The lowercase form of the `run_type` column. -/
def asStr : JobKind → String
  | migrate => "migrate"
  | validate => "validate"
  | guardrail => "guardrail"

end JobKind

/-- The status of a run, or of one range within a run. -/
inductive RunStatus
  /-- Planned but not yet claimed by a worker. -/
  | notStarted
  /-- Claimed by a worker and in progress. -/
  | started
  /-- Completed successfully. -/
  | pass
  /-- Failed with an error, a panic, or a lost lease. -/
  | fail
  /-- Validation found differences that were not corrected. -/
  | diff
  /-- Validation found differences and corrected all of them. -/
  | diffCorrected
  /-- The run as a whole finished. -/
  | ended
  /-- The run was stopped by a signal and can be resumed. -/
  | interrupted
  /-- The run was stopped deliberately. -/
  | aborted
  deriving DecidableEq, Repr

namespace RunStatus

/-- The string written to the `status` column. -/
def asStr : RunStatus → String
  | notStarted => "NOT_STARTED"
  | started => "STARTED"
  | pass => "PASS"
  | fail => "FAIL"
  | diff => "DIFF"
  | diffCorrected => "DIFF_CORRECTED"
  | ended => "ENDED"
  | interrupted => "INTERRUPTED"
  | aborted => "ABORTED"

/-- Whether a range in this status still has work outstanding. -/
def isPending : RunStatus → Bool
  | notStarted | started | fail | diff => true
  | _ => false

end RunStatus

/-- The identifier of a single execution of a job, a CQL `bigint`. -/
structure RunId where
  raw : Int64
  deriving DecidableEq

instance : ToString RunId := ⟨fun id => toString id.raw⟩

/-- A keyspace and a table. -/
structure TableRef where
  keyspace : String
  table : String
  deriving DecidableEq, Repr

instance : ToString TableRef := ⟨fun t => t.keyspace ++ "." ++ t.table⟩

/-! ### Token ranges -/

/-- The least `i128`. -/
def i128Min : ℤ := -2 ^ 127

/-- The greatest `i128`. -/
def i128Max : ℤ := 2 ^ 127 - 1

/-- The least `i64`. -/
def i64Min : ℤ := -2 ^ 63

/-- The greatest `i64`. -/
def i64Max : ℤ := 2 ^ 63 - 1

/-- Clamps to the range of an `i64`, as its saturating operations do. -/
def saturateI64 (x : ℤ) : ℤ := max i64Min (min i64Max x)

/-- The greatest `u32`. -/
def u32Max : ℕ := 2 ^ 32 - 1

/-- The greatest `u64`. -/
def u64Max : ℕ := 2 ^ 64 - 1

/-- The greatest `u128`. -/
def u128Max : ℕ := 2 ^ 128 - 1

/-- A closed interval `[min, max]` of the token ring: the unit of work, scheduling, tracking and
resume. -/
structure TokenRange where
  min : ℤ
  max : ℤ
  min_le_max : min ≤ max
  i128Min_le : i128Min ≤ min
  le_i128Max : max ≤ i128Max
  deriving DecidableEq

namespace TokenRange

@[ext] theorem ext {a b : TokenRange} (hmin : a.min = b.min) (hmax : a.max = b.max) : a = b := by
  cases a; cases b
  simp only at hmin hmax
  subst hmin hmax
  rfl

/-- The range between two literals, whose bounds are evaluated. -/
@[reducible] def checked (min max : ℤ)
    (h : (min ≤ max && i128Min ≤ min && max ≤ i128Max) = true) : TokenRange :=
  have hbounds := (Bool.and_eq_true _ _).mp h
  have hlower := (Bool.and_eq_true _ _).mp hbounds.1
  ⟨min, max, of_decide_eq_true hlower.1, of_decide_eq_true hlower.2, of_decide_eq_true hbounds.2⟩

/-- Whether `token` falls inside the closed interval. -/
def contains (r : TokenRange) (token : ℤ) : Bool := r.min ≤ token && token ≤ r.max

/-- Whether the two ranges share at least one token. -/
def intersects (r s : TokenRange) : Bool := r.min ≤ s.max && s.min ≤ r.max

/-- `Ord` on ranges is lexicographic on `(min, max)`. -/
instance : LinearOrder TokenRange :=
  LinearOrder.lift' (fun r => toLex (r.min, r.max)) fun a b h => by
    have h' := Prod.ext_iff.1 (toLex.injective h)
    exact ext h'.1 h'.2

instance : ToString TokenRange :=
  ⟨fun r => "[" ++ toString r.min ++ ", " ++ toString r.max ++ "]"⟩

theorem le_iff {a b : TokenRange} : a ≤ b ↔ a.min < b.min ∨ a.min = b.min ∧ a.max ≤ b.max :=
  Prod.Lex.le_iff

theorem contains_iff {r : TokenRange} {t : ℤ} : r.contains t = true ↔ r.min ≤ t ∧ t ≤ r.max := by
  simp [contains]

theorem contains_min (r : TokenRange) : r.contains r.min = true :=
  contains_iff.2 ⟨le_rfl, r.min_le_max⟩

theorem intersects_iff {r s : TokenRange} :
    r.intersects s = true ↔ r.min ≤ s.max ∧ s.min ≤ r.max := by
  simp [intersects]

/-- `intersects` decides whether some token lies in both ranges. -/
theorem intersects_iff_exists {r s : TokenRange} :
    r.intersects s = true ↔ ∃ t, r.contains t = true ∧ s.contains t = true := by
  simp only [intersects_iff, contains_iff]
  constructor
  · rintro ⟨h₁, h₂⟩
    exact ⟨Max.max r.min s.min, ⟨le_max_left .., max_le r.min_le_max h₂⟩,
      le_max_right .., max_le h₁ s.min_le_max⟩
  · rintro ⟨t, ⟨h₁, h₂⟩, h₃, h₄⟩
    exact ⟨h₁.trans h₄, h₃.trans h₂⟩

end TokenRange

/-! ### Tracking rows -/

/-- One row of `cdm_run_details`: a range of a run, its status, when it started and the metrics
string of its outcome. -/
structure RangeRecord where
  range : TokenRange
  status : RunStatus
  startedAt : Option ℤ
  info : Option String
  deriving DecidableEq

/-- One row of `cdm_run_info`. -/
structure RunRecord where
  runId : RunId
  previousRunId : Option RunId
  table : TableRef
  job : JobKind
  status : RunStatus
  startedAt : Option ℤ
  endedAt : Option ℤ
  info : Option String
  deriving DecidableEq

/-! ### Rows and records -/

/-- A serialized value. -/
abbrev Bytes := List UInt8

/-- A cell as the driver hands it over: null, or its serialized bytes. -/
abbrev RawCell := Option Bytes

/-- The cells of a row, in projection order. -/
structure Row where
  cells : List RawCell
  deriving DecidableEq, Repr

/-- The values of a primary key, in key order. -/
structure PrimaryKey where
  values : List RawCell
  deriving DecidableEq, Repr

/-- One entry of an exploded map. -/
structure ExplodedEntry where
  key : RawCell
  value : RawCell
  deriving DecidableEq, Repr

/-- An origin row on its way to the target, with the target row fetched for it, if any, and the map
entry it stands for when an explode map is configured. -/
structure Record where
  key : PrimaryKey
  origin : Row
  target : Option Row
  exploded : Option ExplodedEntry
  deriving DecidableEq, Repr

namespace Record

/-- A record with no target row and no exploded entry. -/
def new (key : PrimaryKey) (origin : Row) : Record := ⟨key, origin, none, none⟩

def withKey (r : Record) (key : PrimaryKey) : Record := { r with key := key }

def withExploded (r : Record) (entry : ExplodedEntry) : Record := { r with exploded := some entry }

end Record

end Cdm
