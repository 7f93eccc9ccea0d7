import Cdm.Engine.Accounting
import Cdm.Jobs.Validate

/-!
# A validate range, record by record

`ValidateJob::process` reads the records of a range, issues the target lookups of each, and drains
them in batches: the results come in the order in which the lookups were issued, and each is compared
with the record at the front of a second queue.  A discrepancy is counted, and corrected when the
settings say so.

What the origin and the target answer is carried by the labels: the records, whether a request slot
could be had, the rows that were found, and whether a correction was written.  A panic may happen
between any two steps.

`ValidateRange.rows` is a ghost: what became of each row that was read.
-/

namespace Cdm

/-- `status::verdict`: the verdict of a range that completed, from its interim counters. -/
def ValidateJob.verdict (c : JobCounters) (hadDiscrepancy : Bool) : RangeVerdict :=
  let count kind := c.countOf kind .interim
  if !hadDiscrepancy then .pass
  else if count .missing = count .correctedMissing ∧ count .mismatch = count .correctedMismatch then
    .diffCorrected
  else .diff

/-- Whether a discrepancy is corrected; a missing counter row needs a switch of its own. -/
def ValidateSettings.corrects (settings : ValidateSettings) : Comparison → Bool
  | .valid => false
  | .missing =>
    settings.autocorrect.missing &&
      !(settings.targetIsCounter && !settings.autocorrect.missingCounter)
  | .mismatch _ => settings.autocorrect.mismatch

namespace ValidateRange

/-- What became of a row. -/
inductive RowFate
  /-- It has been read, and nothing more. -/
  | reading
  | skipped
  /-- It calls for `lookups` lookups; the results of `classified` of them have been classified. -/
  | looked (lookups classified : ℕ)
  deriving DecidableEq, Repr

namespace RowFate

def isSkipped : RowFate → Bool
  | skipped => true
  | _ => false

/-- Neither skipped, nor with all of its lookups classified. -/
def isLost : RowFate → Bool
  | reading => true
  | skipped => false
  | looked lookups classified => classified ≠ lookups

def classified : RowFate → ℕ
  | looked _ classified => classified
  | _ => 0

/-- One more lookup has been classified. -/
def classify : RowFate → RowFate
  | looked lookups classified => looked lookups (classified + 1)
  | fate => fate

end RowFate

/-- A record whose target row is looked up, with the number of the row it stands for. -/
abbrev Issued := ℕ × Record

/-- What is done when a batch has been drained. -/
inductive After
  | readOn
  | finish
  | cancelled
  deriving DecidableEq, Repr

/-- Where a range is. -/
inductive Phase
  /-- Between two records. -/
  | reading
  /-- The record has been counted as read. -/
  | filtering (record : Record)
  | exploding (record : Record)
  /-- The lookups of the row that are still to be issued. -/
  | enqueuing (left : List Record)
  | comparing (after : After)
  /-- A discrepancy has been counted, and may have to be corrected. -/
  | correcting (comparison : Comparison) (after : After)
  | ended (result : RangeResult)

end ValidateRange

/-- The counters of a range, its two queues, whether there was a discrepancy, what became of its
rows, and where it is. -/
structure ValidateRange where
  counters : JobCounters
  records : List ValidateRange.Issued
  /-- The records that the lookups in flight were issued for. -/
  inflight : List ValidateRange.Issued
  hadDiscrepancy : Bool
  rows : List ValidateRange.RowFate
  phase : ValidateRange.Phase

namespace ValidateRange

/-- The steps of a range, with what the clusters answer. -/
inductive Act
  /-- The run is shutting down. -/
  | cancel
  /-- The next record: none at the end of the range. -/
  | nextRecord (record : Except CdmError (Option Record))
  | filter
  | explode
  | enqueue (slot : Except CdmError Unit)
  /-- All lookups of the row have been issued. -/
  | enqueued
  /-- The result of the lookup that was issued first. -/
  | compare (fetched : Except CdmError (Option Row))
  | drained
  /-- A correction, if there is one, has ended as `written`. -/
  | correct (written : Except CdmError Unit)
  | panic (message : String)

/-- A range that is about to be read. -/
def init : ValidateRange := ⟨.new .validate, [], [], false, [], .reading⟩

/-- A lookup without a record, which cannot be. -/
def lostRecord : CdmError :=
  ⟨.internal, "the validate batch lost a record between issuing its target lookup and comparing " ++
    "the result", {}⟩

def cancelled : CdmError :=
  ⟨.cancelled, "the validate range was cancelled while reading the origin", {}⟩

/-- The counter of a comparison. -/
def counterOf : Comparison → CounterKind
  | .valid => .valid
  | .missing => .missing
  | .mismatch _ => .mismatch

/-- The counter of a correction. -/
def correctedOf : Comparison → CounterKind
  | .missing => .correctedMissing
  | _ => .correctedMismatch

/-- The row that is being read. -/
def current (s : ValidateRange) : ℕ := s.rows.length - 1

section

variable [LiteralParsers] [SerdeJson] (job : ValidateJob) (fetchSize : ℕ)

/-- One step. -/
def step (s : ValidateRange) : Act → Option ValidateRange
  | .cancel =>
    match s.phase with
    | .reading => some { s with phase := .comparing .cancelled }
    | _ => none
  | .nextRecord record =>
    match s.phase with
    | .reading =>
      match record with
      | .error e => some { s with phase := .ended (.error e) }
      | .ok none => some { s with phase := .comparing .finish }
      | .ok (some record) =>
        some { s with
          counters := s.counters.incrementKind .read 1
          rows := s.rows ++ [RowFate.reading]
          phase := .filtering record }
    | _ => none
  | .filter =>
    match s.phase with
    | .filtering record =>
      match accepts job.filters record with
      | .error e => some { s with phase := .ended (.error e) }
      | .ok false =>
        some { s with
          counters := s.counters.incrementKind .skipped 1
          rows := s.rows.set s.current .skipped
          phase := .reading }
      | .ok true => some { s with phase := .exploding record }
    | _ => none
  | .explode =>
    match s.phase with
    | .exploding record =>
      match job.enqueueLookups record with
      | .error e => some { s with phase := .ended (.error e) }
      | .ok [] =>
        some { s with
          counters := s.counters.incrementKind .skipped 1
          rows := s.rows.set s.current .skipped
          phase := .reading }
      | .ok lookups =>
        some { s with
          rows := s.rows.set s.current (.looked lookups.length 0)
          phase := .enqueuing lookups }
    | _ => none
  | .enqueue slot =>
    match s.phase with
    | .enqueuing (record :: left) =>
      match slot with
      | .error e => some { s with phase := .ended (.error e) }
      | .ok _ =>
        some { s with
          records := s.records ++ [(s.current, record)]
          inflight := s.inflight ++ [(s.current, record)]
          phase := .enqueuing left }
    | _ => none
  | .enqueued =>
    match s.phase with
    | .enqueuing [] =>
      some { s with
        phase := if s.records.length ≥ max fetchSize 1 then .comparing .readOn else .reading }
    | _ => none
  | .compare fetched =>
    match s.phase, s.inflight, s.records with
    | .comparing _, _ :: inflight, [] =>
      some { s with inflight, phase := .ended (.error lostRecord) }
    | .comparing after, issuer :: inflight, record :: records =>
      match fetched with
      | .error e => some { s with inflight, records, phase := .ended (.error e) }
      | .ok target =>
        let comparison := job.plan.compare record.2 target
        some { s with
          counters := s.counters.incrementKind (counterOf comparison) 1
          records, inflight
          hadDiscrepancy := s.hadDiscrepancy || comparison.isDiscrepancy
          rows := s.rows.modify issuer.1 RowFate.classify
          phase := if comparison.isDiscrepancy then .correcting comparison after else .comparing after }
    | _, _, _ => none
  | .drained =>
    match s.phase, s.inflight with
    | .comparing after, [] =>
      let phase : Phase :=
        match after with
        | .readOn => .reading
        | .finish => .ended (.verdict (ValidateJob.verdict s.counters s.hadDiscrepancy))
        | .cancelled => .ended (.error cancelled)
      some { s with records := [], phase }
    | _, _ => none
  | .correct written =>
    match s.phase with
    | .correcting comparison after =>
      if job.settings.corrects comparison then
        match written with
        | .error e => some { s with phase := .ended (.error e) }
        | .ok _ =>
          some { s with
            counters := s.counters.incrementKind (correctedOf comparison) 1
            phase := .comparing after }
      else some { s with phase := .comparing after }
    | _ => none
  | .panic message =>
    match s.phase with
    | .ended _ => none
    | _ => some { s with phase := .ended (.panic message) }

/-- The steps of a range. -/
def lts : LTS ValidateRange Act := ⟨step job fetchSize⟩

end

/-! ### What is classified -/

/-- A lookup whose result has been classified: the record it was issued for, the one it was compared
with, and the row that was found. -/
structure Classified where
  issuer : Issued
  record : Issued
  target : Option Row

/-- What a step classifies. -/
def classified (s : ValidateRange) : Act → Option Classified
  | .compare (.ok target) =>
    match s.phase, s.inflight, s.records with
    | .comparing _, issuer :: _, record :: _ => some ⟨issuer, record, target⟩
    | _, _, _ => none
  | _ => none

end ValidateRange

end Cdm
