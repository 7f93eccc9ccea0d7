import Cdm.Lib.Fallible
import Cdm.Lib.Text
import Cdm.Planner.Plan
import Cdm.Planner.Shuffle

/-!
# Resuming a run

Choosing a previous run and turning its recorded ranges into the work list of the next one.  The
bias of the module is to re-run a range when in doubt; the exception is a job that writes to a
counter table, where only ranges that never started are planned again and the rest is quarantined.
-/

namespace Cdm

/-! ### The policy -/

/-- Why a range was withheld from a resume. -/
inductive QuarantineReason
  /-- A counter range that may have partially applied. -/
  | counterPartiallyApplied
  deriving DecidableEq, Repr

/-- What a resume does with one range of the previous run. -/
inductive RangeDisposition
  /-- The range finished; the resume leaves it alone. -/
  | complete
  /-- The range is unfinished and will be planned again. -/
  | rerun
  /-- The range is unfinished but running it again would be unsafe. -/
  | quarantined (reason : QuarantineReason)
  deriving DecidableEq, Repr

/-- Whether a run's ranges may be re-run, and which ones. -/
structure RerunPolicy where
  /-- Whether the target table has counter columns. -/
  counterTable : Bool
  /-- Whether this job writes to the target at all. -/
  writesToTarget : Bool
  deriving DecidableEq, Repr

namespace RerunPolicy

/-- The statuses an ordinary job plans again. -/
def idempotentStatuses : List RunStatus := [.notStarted, .started, .fail, .diff]

/-- The statuses a counter-writing job may plan again. -/
def counterSafeStatuses : List RunStatus := [.notStarted]

/-- The policy for a job against a non-counter table. -/
def idempotent : RerunPolicy := ⟨false, true⟩

/-- Whether this policy is the counter-safe one. -/
def isCounterRestricted (p : RerunPolicy) : Bool := p.counterTable && p.writesToTarget

/-- Every status this policy is willing to plan again. -/
def rerunnableStatuses (p : RerunPolicy) : List RunStatus :=
  if p.isCounterRestricted then counterSafeStatuses else idempotentStatuses

/-- What to do with a range recorded in `status`; `none` is a status string that is not one of the
known ones. -/
def disposition (p : RerunPolicy) : Option RunStatus → RangeDisposition
  | none =>
    if p.isCounterRestricted then .quarantined .counterPartiallyApplied else .rerun
  | some status =>
    if status ∈ p.rerunnableStatuses then .rerun
    else if p.isCounterRestricted && status.isPending then .quarantined .counterPartiallyApplied
    else .complete

/-- Without the counter restriction the ranges planned again are the pending ones, and nothing is
quarantined. -/
theorem disposition_of_unrestricted {p : RerunPolicy} (h : p.isCounterRestricted = false)
    (status : RunStatus) :
    p.disposition (some status) = if status.isPending then .rerun else .complete := by
  simp only [disposition, rerunnableStatuses, h, Bool.false_eq_true, if_false, Bool.false_and]
  cases status <;> decide

/-- Under the counter restriction only a range that never started is planned again, and every other
pending one is quarantined. -/
theorem disposition_of_restricted {p : RerunPolicy} (h : p.isCounterRestricted = true)
    (status : RunStatus) :
    p.disposition (some status) =
      if status = .notStarted then .rerun
      else if status.isPending then .quarantined .counterPartiallyApplied
      else .complete := by
  simp only [disposition, rerunnableStatuses, h, if_true, Bool.true_and]
  cases status <;> decide

end RerunPolicy

/-! ### Adopting a run -/

/-- The prefix of the failed-partition count in a metrics string. -/
def partitionsFailedPrefix : String := "Partitions Failed:"

/-- Whether a metrics string reports at least one failed partition; a count that cannot be read
counts as a failure. -/
def hasFailedPartitions (runInfo : String) : Bool :=
  (Text.splitOn ';' runInfo.toList).any fun entry =>
    match Text.stripPrefix partitionsFailedPrefix.toList (Text.trim entry) with
    | none => false
    | some rest =>
      match Text.parseI64 (Text.trim rest) with
      | none => true
      | some failed => decide (0 < failed)

/-- Whether `run` is worth adopting as the previous run. -/
def isResumable (run : RunRecord) : Bool :=
  run.status != .ended || run.info.any hasFailedPartitions

/-- Selects the run `auto_rerun` adopts, given the newest one. -/
def adoptPreviousRun (latest : Option RunRecord) : Option RunId :=
  (latest.filter isResumable).map RunRecord.runId

/-! ### Planning the resume -/

/-- A range the resume declined to plan again, and why. -/
structure QuarantinedRange where
  range : TokenRange
  status : Option RunStatus
  reason : QuarantineReason
  deriving DecidableEq

/-- Why a resume gave up on the previous run and planned afresh. -/
inductive FallbackReason
  | runNotFound (id : RunId)
  | runNotStarted (id : RunId)
  | noRangesRecorded (id : RunId)
  deriving DecidableEq

/-- The outcome of planning a resume. -/
structure ResumePlan where
  ranges : List TokenRange
  quarantined : List QuarantinedRange
  fallback : Option FallbackReason
  previousRunId : Option RunId
  considered : ℕ
  deriving DecidableEq

/-- A resume that produced no work list; the caller must plan a full run. -/
def ResumePlan.ofFallback (previousRunId : RunId) (reason : FallbackReason) : ResumePlan where
  ranges := []
  quarantined := []
  fallback := some reason
  previousRunId := some previousRunId
  considered := 0

/-- Splits one pending range into `multiplier` parts at full coverage. -/
def subdivide (range : TokenRange) (multiplier : ℕ) : Except CdmError (List TokenRange) :=
  if multiplier ≤ 1 then .ok [range]
  else
    match splitRing range multiplier 100 with
    | .error err =>
      .error ⟨.tracking, s!"cannot subdivide pending range {range} by {multiplier}: {err}", {}⟩
    | .ok parts => .ok (if parts = [] then [range] else parts)

/-- The ranges of `records` that the policy plans again. -/
def pendingRanges (policy : RerunPolicy) (records : List RangeRecord) : List TokenRange :=
  (records.filter fun r => policy.disposition (some r.status) = .rerun).map RangeRecord.range

/-- The ranges of `records` that the policy withholds. -/
def quarantinedRanges (policy : RerunPolicy) (records : List RangeRecord) :
    List QuarantinedRange :=
  records.filterMap fun r =>
    match policy.disposition (some r.status) with
    | .quarantined reason => some ⟨r.range, some r.status, reason⟩
    | _ => none

/-- Subdivides every pending range, when the multiplier asks for it. -/
def subdivideAll (pending : List TokenRange) (multiplier : ℕ) :
    Except CdmError (List TokenRange) :=
  if 1 < multiplier then (pending.mapM (subdivide · multiplier)).map List.flatten
  else .ok pending

/-- Turns the previous run's recorded ranges into the next run's work list. -/
def planResume (previousRunId : RunId) (previous : Option RunRecord) (records : List RangeRecord)
    (policy : RerunPolicy) (rerunMultiplier : ℕ) (runId : RunId) : Except CdmError ResumePlan :=
  match previous with
  | none => .ok (.ofFallback previousRunId (.runNotFound previousRunId))
  | some previous =>
    if previous.status = .notStarted then
      .ok (.ofFallback previousRunId (.runNotStarted previousRunId))
    else if records = [] then
      .ok (.ofFallback previousRunId (.noRangesRecorded previousRunId))
    else do
      let pending ← subdivideAll (pendingRanges policy records) (max rerunMultiplier 1)
      pure {
        ranges := shuffleForRun (pending.insertionSort (· ≤ ·)) runId
        quarantined := (quarantinedRanges policy records).insertionSort
          fun a b => a.range ≤ b.range
        fallback := none
        previousRunId := some previousRunId
        considered := records.length }

/-- The scheduler's work list for this resume. -/
def ResumePlan.tokenPlan (plan : ResumePlan) (runId : RunId) (partitioner : Partitioner) :
    Except CdmError TokenPlan :=
  if plan.fallback.isSome then
    .error ⟨.tracking, "this resume fell back to a full plan and has no work list of its own; plan " ++
      "the ring instead (TRK-032)", {}⟩
  else if plan.ranges = [] then
    .error ⟨.tracking, "the previous run left no outstanding ranges, so there is nothing to resume",
      {}⟩
  else
    TokenPlan.fromRanges runId partitioner plan.previousRunId plan.ranges

/-! ### What a resume plans -/

/-- **Subdividing loses no token**: the parts of a range are apart and hold exactly its tokens. -/
theorem subdivide_divides {range : TokenRange} {multiplier : ℕ} {parts : List TokenRange}
    (h : subdivide range multiplier = .ok parts) : Cover.Divides TokenRange.Mem parts range := by
  unfold subdivide at h
  split_ifs at h
  · injection h with h
    exact h ▸ Cover.divides_self range
  · split at h
    · cases h
    · rename_i hs
      injection h with h
      split_ifs at h
      · exact h ▸ Cover.divides_self range
      · exact h ▸ splitRing_divides hs

/-- Subdividing a whole list divides each of its ranges, in order. -/
theorem subdivideAll_divides {ranges parts : List TokenRange} {multiplier : ℕ}
    (h : subdivideAll ranges multiplier = .ok parts) :
    ∃ f : TokenRange → List TokenRange,
      parts = ranges.flatMap f ∧ ∀ r ∈ ranges, Cover.Divides TokenRange.Mem (f r) r := by
  unfold subdivideAll at h
  split_ifs at h
  · obtain ⟨pieces, hpieces, rfl⟩ := Fallible.map_eq_ok.1 h
    obtain ⟨hmap, hok⟩ := Fallible.mapM_eq_ok_map [] hpieces
    exact ⟨_, by rw [hmap, List.flatMap], fun r hr => subdivide_divides (hok r hr)⟩
  · cases h
    exact ⟨fun r => [r], by simp, fun r _ => Cover.divides_self r⟩

section PlanResume

variable {prev runId : RunId} {previous : Option RunRecord} {records : List RangeRecord}
  {policy : RerunPolicy} {multiplier : ℕ} {plan : ResumePlan}

/-- What a resume of a started run with recorded ranges plans. -/
theorem planResume_of_records {run : RunRecord} (hstatus : run.status ≠ .notStarted)
    (hrec : records ≠ []) :
    planResume prev (some run) records policy multiplier runId =
      (subdivideAll (pendingRanges policy records) (max multiplier 1)).map fun pending =>
        { ranges := shuffleForRun (pending.insertionSort (· ≤ ·)) runId
          quarantined := (quarantinedRanges policy records).insertionSort
            fun a b => a.range ≤ b.range
          fallback := none
          previousRunId := some prev
          considered := records.length } := by
  simp only [planResume, if_neg hstatus, if_neg hrec]
  cases subdivideAll (pendingRanges policy records) (max multiplier 1) <;> rfl

/-- A resume falls back, or plans the pending ranges with each subdivided. -/
theorem planResume_cases (h : planResume prev previous records policy multiplier runId = .ok plan) :
    (∃ reason, plan = .ofFallback prev reason ∧
      ((∀ run, previous = some run → run.status = .notStarted) ∨ records = [])) ∨
    ∃ pending, subdivideAll (pendingRanges policy records) (max multiplier 1) = .ok pending ∧
      plan.fallback = none ∧
      plan.ranges = shuffleForRun (pending.insertionSort (· ≤ ·)) runId ∧
      plan.quarantined = (quarantinedRanges policy records).insertionSort
        fun a b => a.range ≤ b.range := by
  cases previous with
  | none =>
    cases h
    exact .inl ⟨_, rfl, .inl fun run hrun => by cases hrun⟩
  | some run =>
    by_cases hstatus : run.status = .notStarted
    · rw [planResume, if_pos hstatus] at h
      cases h
      refine .inl ⟨_, rfl, .inl ?_⟩
      rintro run ⟨⟩
      exact hstatus
    · by_cases hrec : records = []
      · rw [planResume, if_neg hstatus, if_pos hrec] at h
        cases h
        exact .inl ⟨_, rfl, .inr hrec⟩
      · rw [planResume_of_records hstatus hrec] at h
        obtain ⟨pending, hpending, rfl⟩ := Fallible.map_eq_ok.1 h
        exact .inr ⟨pending, hpending, rfl, rfl, rfl⟩

/-- A resume that does not fall back plans, up to order, the pending ranges with each divided. -/
theorem planResume_ok (h : planResume prev previous records policy multiplier runId = .ok plan)
    (hf : plan.fallback = none) :
    ∃ f : TokenRange → List TokenRange,
      plan.ranges.Perm ((pendingRanges policy records).flatMap f) ∧
        ∀ r ∈ pendingRanges policy records, Cover.Divides TokenRange.Mem (f r) r := by
  rcases planResume_cases h with ⟨reason, rfl, -⟩ | ⟨pending, hpending, -, hranges, -⟩
  · cases hf
  · obtain ⟨f, rfl, hdiv⟩ := subdivideAll_divides hpending
    rw [hranges]
    exact ⟨f, (shuffleForRun_perm ..).trans (List.perm_insertionSort ..), hdiv⟩

/-- What a resume that does not fall back quarantines. -/
theorem quarantined_of_planResume
    (h : planResume prev previous records policy multiplier runId = .ok plan)
    (hf : plan.fallback = none) : plan.quarantined.Perm (quarantinedRanges policy records) := by
  rcases planResume_cases h with ⟨reason, rfl, -⟩ | ⟨pending, -, -, -, hquarantined⟩
  · cases hf
  · rw [hquarantined]
    exact List.perm_insertionSort ..

/-- A resume that falls back plans nothing, and there is no started run with recorded ranges. -/
theorem fallback_of_planResume
    (h : planResume prev previous records policy multiplier runId = .ok plan)
    (hf : plan.fallback ≠ none) :
    plan.ranges = [] ∧ ((∀ run, previous = some run → run.status = .notStarted) ∨ records = []) := by
  rcases planResume_cases h with ⟨reason, rfl, hnothing⟩ | ⟨pending, -, hnone, -⟩
  · exact ⟨rfl, hnothing⟩
  · exact absurd hnone hf

/-- A resume over a started run with recorded ranges never falls back. -/
theorem planResume_fallback {run : RunRecord}
    (h : planResume prev (some run) records policy multiplier runId = .ok plan)
    (hstatus : run.status ≠ .notStarted) (hrec : records ≠ []) : plan.fallback = none := by
  rcases planResume_cases h with ⟨-, -, hnothing⟩ | ⟨pending, -, hnone, -⟩
  · exact absurd hnothing (not_or.2 ⟨fun hrun => hstatus (hrun run rfl), hrec⟩)
  · exact hnone

end PlanResume

/-- The ranges a counter-restricted policy plans again are those that never started. -/
theorem pendingRanges_of_restricted {policy : RerunPolicy} (h : policy.isCounterRestricted = true)
    (records : List RangeRecord) :
    pendingRanges policy records =
      (records.filter (·.status = .notStarted)).map RangeRecord.range := by
  rw [pendingRanges]
  congr 1
  apply List.filter_congr
  intro record _
  rw [RerunPolicy.disposition_of_restricted h]
  by_cases hstatus : record.status = .notStarted
  · simp [hstatus]
  · cases record.status <;> simp_all [RunStatus.isPending]

/-- The ranges a counter-restricted policy quarantines are the other pending ones. -/
theorem quarantinedRanges_of_restricted {policy : RerunPolicy}
    (h : policy.isCounterRestricted = true) (records : List RangeRecord) :
    quarantinedRanges policy records =
      (records.filter fun r => r.status.isPending && r.status ≠ .notStarted).map fun r =>
        ⟨r.range, some r.status, .counterPartiallyApplied⟩ := by
  rw [quarantinedRanges, ← List.filterMap_eq_map, List.filterMap_filter]
  congr 1
  funext record
  obtain ⟨range, status, startedAt, info⟩ := record
  rw [RerunPolicy.disposition_of_restricted h]
  cases status <;> rfl

/-- The plan of a resume holds the ranges of the resume. -/
theorem ResumePlan.tokenRanges_of_tokenPlan {plan : ResumePlan} {runId : RunId} {p : Partitioner}
    {tp : TokenPlan} (h : plan.tokenPlan runId p = .ok tp) : tp.tokenRanges = plan.ranges := by
  unfold ResumePlan.tokenPlan at h
  split_ifs at h
  exact TokenPlan.tokenRanges_of_fromRanges h

/-- A resume that fell back gives no plan of its own. -/
theorem ResumePlan.fallback_of_tokenPlan {plan : ResumePlan} {runId : RunId} {p : Partitioner}
    {tp : TokenPlan} (h : plan.tokenPlan runId p = .ok tp) : plan.fallback = none := by
  unfold ResumePlan.tokenPlan at h
  split_ifs at h with hf
  simpa using hf

end Cdm
