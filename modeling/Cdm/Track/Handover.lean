import Cdm.Engine.RunReport
import Cdm.Track.Replan
import Cdm.Track.TrackedRun

/-!
# From one run to the next

A resume reads nothing of a run but what was stored.  With what is stored being what the run reported
(`Tracking.Stored`), it plans exactly the tokens that the run left: those of every range that is
unclaimed, abandoned, failed or different, and no token of a range that passed or was corrected.  A
job that writes to a counter table plans the unclaimed ranges only and withholds the others that are
not done.
-/

namespace Cdm

open List SchedulerRun

/-- Whether no later run has to look at the range. -/
def RangeOutcome.isDone (o : RangeOutcome) : Bool := o.status = .pass || o.status = .diffCorrected

/-- A range that has ended is done, or its status is pending and it was started. -/
theorem FinishedRange.Kind.pending {f : FinishedRange} (h : f.Kind) :
    f.outcome.status ≠ .notStarted ∧ (f.outcome.status.isPending = !f.outcome.isDone) := by
  rcases h with ⟨verdict, hstatus, -⟩ | ⟨hstatus, -⟩ | ⟨hstatus, -⟩
  · rw [RangeOutcome.isDone, hstatus]
    cases verdict <;> decide
  · rw [RangeOutcome.isDone, hstatus]
    decide
  · rw [RangeOutcome.isDone, hstatus]
    decide

namespace Tracking

variable {record : RunRecord} {plan : TokenPlan} {report : SchedulerRun.Report} {stored : StoredRun}

theorem Stored.mem_rows (h : Stored record plan report stored) {P : TokenRange → RunStatus → Prop} :
    (∃ row ∈ stored.rows, P row.range row.status) ↔
      (∃ f ∈ report.outcomes, P f.outcome.range f.outcome.status) ∨
        ∃ range ∈ report.unclaimed, P range .notStarted := by
  have hentry : (∃ row ∈ stored.rows, P row.range row.status) ↔
      ∃ entry ∈ report.recorded, P entry.1 entry.2.1 := by
    constructor
    · rintro ⟨row, hrow, hP⟩
      exact ⟨row.entry, h.rows.mem_iff.1 (mem_map_of_mem hrow), hP⟩
    · rintro ⟨entry, hentry, hP⟩
      obtain ⟨row, hrow, rfl⟩ := mem_map.1 (h.rows.mem_iff.2 hentry)
      exact ⟨row, hrow, hP⟩
  simp [hentry, SchedulerRun.Report.recorded, or_and_right, exists_or]

/-- The rows are as far apart as the ranges of the plan. -/
theorem Stored.apart (h : Stored record plan report stored)
    (hapart : Cover.Apart TokenRange.Mem plan.tokenRanges) :
    Cover.Apart TokenRange.Mem (stored.rows.map RangeRecord.range) := by
  have hranges : (stored.rows.map RangeRecord.range).Perm plan.tokenRanges := by
    have := (h.rows.map Prod.fst).trans h.plan
    rwa [map_map] at this
  exact hapart.perm hranges.symm

variable {prev runId : RunId} {policy : RerunPolicy} {multiplier : ℕ} {next : ResumePlan}

theorem Stored.status (h : Stored record plan report stored) : stored.info.status = report.status := by
  obtain ⟨now, hinfo⟩ := h.info
  rw [hinfo]
  rfl

/-- **The tokens that a resume plans**, in terms of the report. -/
theorem Stored.covers_planResume (h : Stored record plan report stored)
    (hstatus : report.status ≠ .notStarted)
    (hplan : planResume prev (some stored.info) stored.rows policy multiplier runId = .ok next)
    (t : ℤ) : Cover.Covers TokenRange.Mem next.ranges t ↔
      (∃ f ∈ report.outcomes, policy.disposition (some f.outcome.status) = .rerun ∧
        f.outcome.range.Mem t) ∨ ∃ range ∈ report.unclaimed, range.Mem t := by
  have hnever : policy.disposition (some .notStarted) = .rerun := by
    unfold RerunPolicy.disposition RerunPolicy.rerunnableStatuses
    split_ifs <;> rfl
  rw [Cdm.covers_planResume (h.status ▸ hstatus) hplan,
    h.mem_rows (P := fun range status => policy.disposition (some status) = .rerun ∧ range.Mem t)]
  simp [hnever]

theorem Stored.isResumable (h : Stored record plan report stored)
    (hunfinished : report.status ≠ .ended ∨ hasFailedPartitions report.counters.runInfo = true) :
    isResumable stored.info = true := by
  obtain ⟨now, hinfo⟩ := h.info
  have hinfo' : stored.info.info = some report.counters.runInfo := by
    rw [hinfo]
    rfl
  rw [Cdm.isResumable, h.status, hinfo']
  rcases hunfinished with hstatus | hfailed
  · simp [hstatus]
  · simp [hfailed]

/-- The condition on a step: the tracker moves in order, and the processor counts rows only. -/
def Sound (config : TrackerConfig) (s : ObservedRun Tracking) (act : ObservedRun.Act Act) : Prop :=
  InOrder config s act ∧ ∀ a ∈ act.run?, s.run.RowsOnly a

instance decidableSound (config : TrackerConfig) (s : ObservedRun Tracking)
    (act : ObservedRun.Act Act) : Decidable (Sound config s act) :=
  inferInstanceAs (Decidable (_ ∧ ∀ a ∈ act.run?, _))

/-- What a resume does with a run that reported this. -/
structure Resumes (policy : RerunPolicy) (plan : TokenPlan) (report : SchedulerRun.Report)
    (next : ResumePlan) : Prop where
  apart : Cover.Apart TokenRange.Mem next.ranges
  /-- Every token that the run did not deal with for good is planned, and no other. -/
  unrestricted : policy.isCounterRestricted = false → ∀ t,
    Cover.Covers TokenRange.Mem next.ranges t ↔ Cover.Covers TokenRange.Mem plan.tokenRanges t ∧
      ¬ ∃ f ∈ report.outcomes, f.outcome.isDone = true ∧ f.outcome.range.Mem t
  /-- Only what nobody has started is planned, and what is not done is withheld. -/
  restricted : policy.isCounterRestricted = true →
    (∀ t, Cover.Covers TokenRange.Mem next.ranges t ↔
      Cover.Covers TokenRange.Mem report.unclaimed t) ∧
    ∀ f ∈ report.outcomes, f.outcome.isDone = false → next.Quarantines f.outcome.range

variable {config : TrackerConfig} {settings : SchedulerSettings} {job : JobKind}
  {s : ObservedRun Tracking}

theorem mem_recorded_outcome {f : FinishedRange} (hf : f ∈ report.outcomes) :
    (f.outcome.range, f.outcome.status, some f.outcome.runInfo) ∈ report.recorded :=
  mem_append_left _ (mem_map.2 ⟨f, hf, rfl⟩)

theorem mem_recorded_unclaimed {range : TokenRange} (hrange : range ∈ report.unclaimed) :
    (range, RunStatus.notStarted, none) ∈ report.recorded :=
  mem_append_right _ (mem_map.2 ⟨range, hrange, rfl⟩)

/-- What is reported about a token is reported once. -/
theorem Stored.entry_eq (h : Stored record plan report stored)
    (hapart : Cover.Apart TokenRange.Mem plan.tokenRanges)
    {a b : TokenRange × RunStatus × Option String} (ha : a ∈ report.recorded)
    (hb : b ∈ report.recorded) {t : ℤ} (hta : a.1.Mem t) (htb : b.1.Mem t) : a = b := by
  have hrecorded : Cover.Apart (fun entry => entry.1.Mem) report.recorded :=
    pairwise_map.1 (hapart.perm h.plan.symm)
  exact hrecorded.eq_of_mem ha hb hta htb

theorem Stored.resumes (h : Stored record plan report stored)
    (hapart : Cover.Apart TokenRange.Mem plan.tokenRanges) (hstatus : report.status ≠ .notStarted)
    (hkinds : ∀ f ∈ report.outcomes, f.Kind)
    (hplan : planResume prev (some stored.info) stored.rows policy multiplier runId = .ok next) :
    Resumes policy plan report next := by
  have hcovers := h.covers_planResume hstatus hplan
  have hstarted : stored.info.status ≠ .notStarted := h.status ▸ hstatus
  refine ⟨apart_planResume hstarted (h.apart hapart) hplan, fun hfree t => ?_,
    fun hrestricted => ⟨fun t => ?_, fun f hf hdone => ?_⟩⟩
  · have hrerun {f : FinishedRange} (hf : f ∈ report.outcomes) :
        policy.disposition (some f.outcome.status) = .rerun ↔ f.outcome.isDone = false := by
      rw [RerunPolicy.disposition_of_unrestricted hfree, (hkinds f hf).pending.2]
      cases f.outcome.isDone <;> simp
    rw [hcovers t]
    constructor
    · rintro (⟨f, hf, hdisposition, ht⟩ | ⟨range, hrange, ht⟩)
      · refine ⟨⟨f.outcome.range, h.plan.mem_iff.1
          (mem_map_of_mem (mem_recorded_outcome hf)), ht⟩, ?_⟩
        rintro ⟨g, hg, hdone, ht'⟩
        have heq := h.entry_eq hapart (mem_recorded_outcome hf) (mem_recorded_outcome hg) ht ht'
        have hsame : f.outcome.status = g.outcome.status := congrArg (fun entry => entry.2.1) heq
        have hnot := (hrerun hf).1 hdisposition
        rw [RangeOutcome.isDone, hsame] at hnot
        rw [RangeOutcome.isDone, hnot] at hdone
        simp at hdone
      · refine ⟨⟨range, h.plan.mem_iff.1 (mem_map_of_mem (mem_recorded_unclaimed hrange)), ht⟩, ?_⟩
        rintro ⟨g, hg, -, ht'⟩
        have heq := h.entry_eq hapart (mem_recorded_unclaimed hrange) (mem_recorded_outcome hg) ht ht'
        exact (hkinds g hg).pending.1 (congrArg (fun entry => entry.2.1) heq).symm
    · rintro ⟨⟨range, hrange, ht⟩, hnone⟩
      obtain ⟨entry, hentry, rfl⟩ := mem_map.1 (h.plan.mem_iff.2 hrange)
      rcases mem_append.1 hentry with hmem | hmem
      · obtain ⟨f, hf, rfl⟩ := mem_map.1 hmem
        refine .inl ⟨f, hf, (hrerun hf).2 ?_, ht⟩
        by_contra hdone
        exact hnone ⟨f, hf, by simpa using hdone, ht⟩
      · obtain ⟨range, hunclaimed, rfl⟩ := mem_map.1 hmem
        exact .inr ⟨range, hunclaimed, ht⟩
  · rw [hcovers t]
    constructor
    · rintro (⟨f, hf, hdisposition, -⟩ | hunclaimed)
      · rw [RerunPolicy.disposition_of_restricted hrestricted,
          if_neg (hkinds f hf).pending.1] at hdisposition
        split_ifs at hdisposition
      · exact hunclaimed
    · exact .inr
  · obtain ⟨hnotStarted, hpending⟩ := (hkinds f hf).pending
    obtain ⟨row, hrow, hentry⟩ := mem_map.1 (h.rows.mem_iff.2 (mem_recorded_outcome hf))
    have hrange : row.range = f.outcome.range := congrArg Prod.fst hentry
    have hrowStatus : row.status = f.outcome.status := congrArg (fun entry => entry.2.1) hentry
    have htreats := treats_planResume hstarted (h.apart hapart) hplan hrow
    rw [hrowStatus, RerunPolicy.disposition_of_restricted hrestricted, if_neg hnotStarted, hpending,
      hdone] at htreats
    exact ⟨_, htreats.2, hrange⟩

theorem status_report_ne_notStarted (r : SchedulerRun) : r.report.status ≠ .notStarted := by
  rw [status_report]
  rcases r.report.stoppedBy with - | reason
  · simp
  · cases reason <;> simp [StopReason.runStatus]

open ObservedRun (soleSettings killedPlan_apart)

end Tracking

end Cdm
