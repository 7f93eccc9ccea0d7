import Cdm.Core.Error

/-!
# How a range ends

A processor that completes a range gives a `RangeVerdict`; a range can also fail (an error, a panic
or a lost lease) or be abandoned when the run is killed.  `RangeEnd.status` is the status that is
recorded for it.
-/

namespace Cdm

/-- What a processor says about a range it completed. -/
inductive RangeVerdict
  /-- Processed with nothing to report. -/
  | pass
  /-- Differences were found and not all of them corrected. -/
  | diff
  /-- Differences were found and corrected. -/
  | diffCorrected
  deriving DecidableEq, Repr

/-- The tracking status a verdict is recorded as. -/
def RangeVerdict.status : RangeVerdict → RunStatus
  | pass => .pass
  | diff => .diff
  | diffCorrected => .diffCorrected

/-- The ways the scheduler lets go of a range. -/
inductive RangeEnd
  /-- The processor returned a verdict. -/
  | completed (verdict : RangeVerdict)
  /-- The processor returned an error or panicked. -/
  | failed
  /-- The run was killed while the range was in progress. -/
  | abandoned
  deriving DecidableEq, Repr

/-- The status recorded for a range that ended this way. -/
def RangeEnd.status : RangeEnd → RunStatus
  | completed verdict => verdict.status
  | failed => .fail
  | abandoned => .started

end Cdm
