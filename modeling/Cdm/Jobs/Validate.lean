import Cdm.Jobs.Compare
import Cdm.Jobs.Migrate

/-!
# The validate job

Each record of a range is looked up on the target, once or once for each entry of an exploded map,
compared with the row that was found, and corrected when the settings say so.
-/

namespace Cdm

/-- Which discrepancies are corrected. -/
structure Autocorrect where
  missing : Bool
  missingCounter : Bool
  mismatch : Bool
  deriving DecidableEq, Repr

structure ValidateSettings where
  autocorrect : Autocorrect
  targetIsCounter : Bool
  deriving DecidableEq, Repr

/-- How a validate run explodes a record: the plan migrate explodes with, and how the key of an entry
is derived. -/
structure ValidateExplode where
  plan : ExplodePlan
  keys : TargetKeyPlan

/-- The validate job. -/
structure ValidateJob where
  /-- How the origin source derives keys. -/
  keys : TargetKeyPlan
  target : CqlRowSink
  plan : ComparisonPlan
  filters : List Filter
  explode : Option ValidateExplode
  settings : ValidateSettings

namespace ValidateJob

variable (job : ValidateJob)

/-- The record of one exploded entry: it carries the entry, under the key the entry was written
under. -/
def entryRecord (explode : ValidateExplode) (record : Record) (entry : ExplodedEntry) : Record :=
  (record.withKey (explode.keys.keyOf record.origin ⟨entry.key, entry.value⟩)).withExploded entry

/-- The records whose target rows are looked up for one record. -/
def enqueueLookups (record : Record) : Except CdmError (List Record) :=
  match job.explode with
  | none => .ok [record]
  | some explode =>
    (explode.plan.explodeRecord record).map fun entries => entries.map (entryRecord explode record)

end ValidateJob

end Cdm
