import Cdm.Engine.Adoption
import Cdm.Lib.Words

/-!
# What a run reports, and how the process exits

The report counts the ranges that succeeded, failed and were abandoned; the summary that the command
prints adds the discrepancies that were not repaired, and chooses the exit of the process.
-/

namespace Cdm

open List

namespace RangeOutcome

/-- Whether the range reached a successful terminal state. -/
def isSuccess (o : RangeOutcome) : Bool :=
  match o.status with
  | .pass | .diff | .diffCorrected => true
  | _ => false

/-- Whether the range failed. -/
def isFailure (o : RangeOutcome) : Bool :=
  match o.status with
  | .fail => true
  | _ => false

end RangeOutcome

namespace SchedulerRun.Report

def rangesFailed (r : Report) : ℕ := (r.outcomes.filter fun f => f.outcome.isFailure).length

def rangesPassed (r : Report) : ℕ := (r.outcomes.filter fun f => f.outcome.isSuccess).length

def rangesAbandoned (r : Report) : ℕ := (r.outcomes.filter fun f => f.outcome.abandoned).length

/-- The process exit code this run implies. -/
def exitCode (r : Report) : UInt8 :=
  match r.status with
  | .interrupted => 4
  | .ended => if r.rangesFailed = 0 then 0 else 1
  | _ => 1

end SchedulerRun.Report

/-- The name of a status as `{:?}` prints it. -/
def RunStatus.debugName : RunStatus → String
  | notStarted => "NotStarted"
  | started => "Started"
  | pass => "Pass"
  | fail => "Fail"
  | diff => "Diff"
  | diffCorrected => "DiffCorrected"
  | ended => "Ended"
  | interrupted => "Interrupted"
  | aborted => "Aborted"

/-- How a process exits. -/
inductive Exit
  | success
  | completed
  | config
  | connect
  | interrupted
  | internal
  deriving DecidableEq, Repr

namespace Exit

def code : Exit → UInt8
  | success => 0
  | completed => 1
  | config => 2
  | connect => 3
  | interrupted => 4
  | internal => 5

/-- Whether a supervisor should consider retrying the invocation unchanged. -/
def isRetryable : Exit → Bool
  | interrupted => true
  | _ => false

/-- The exit for a terminal status. -/
def forRunStatus : RunStatus → Exit
  | .ended | .pass | .notStarted | .started => success
  | .interrupted => interrupted
  | .fail | .diff | .diffCorrected | .aborted => completed

end Exit

/-- What a run found and did not repair. -/
def unrepaired (report : SchedulerRun.Report) : UInt64 :=
  let count (kind : CounterKind) : UInt64 :=
    match report.counters.counter kind with
    | .ok counter => (report.counters.units counter.kind).get .committed
    | .error _ => 0
  let found := count .missing + count .mismatch
  let fixed := count .correctedMissing + count .correctedMismatch
  if fixed ≤ found then found - fixed else 0

/-- What the command prints when a run is over, less the block of counters. -/
structure RunSummary where
  job : String
  status : String
  dryRun : Bool
  rangesPassed : ℕ
  rangesFailed : ℕ
  discrepancies : UInt64
  deriving DecidableEq

namespace RunSummary

def fromReport (kind : JobKind) (report : SchedulerRun.Report) (dryRun : Bool) : RunSummary where
  job := kind.asStr
  status := .ofList (Text.toUpper report.status.debugName.toList)
  dryRun := dryRun
  rangesPassed := report.rangesPassed
  rangesFailed := report.rangesFailed
  discrepancies := unrepaired report

def isClean (s : RunSummary) : Bool :=
  s.rangesFailed == 0 && s.discrepancies == 0 && s.status == "ENDED"

def exit (s : RunSummary) : Exit :=
  if s.status = "INTERRUPTED" then .interrupted
  else if s.isClean then .success
  else .completed

end RunSummary

/-! ### Where the outcomes come from -/

namespace SchedulerRun

variable {settings : SchedulerSettings} {job : JobKind} {plan : TokenPlan}

theorem ended_workStep {s s' : SchedulerRun} {w : ℕ} {state : WorkerState}
    (hw : s.workers[w]? = some state) (h : s.workStep settings w state = some s') {f : FinishedRange}
    (hf : f ∈ s'.ended) : f ∈ s.ended := by
  have hkeep {control : RunControl} {b : WorkerState} (hb : ∀ g ∈ b.finished, g ∈ state.finished)
      (hf : f ∈ ({ s with control }.setWorker w b).ended) : f ∈ s.ended :=
    (mem_ended_setWorker hf).elim id fun h => mem_ended_of_worker hw (hb f h)
  rcases state with - | - | - | range | ⟨ops, g⟩ | g | - | - | ops | -
  · simp only [workStep] at h
    split_ifs at h
    cases h
    exact hkeep (b := .checking) (by simp [WorkerState.finished]) hf
  · cases h
    refine hkeep (fun g hg => ?_) hf
    split_ifs at hg
    · simp [WorkerState.finished] at hg
    · simp [WorkerState.finished] at hg
  · cases h
    have hclaim : (WorkerState.afterClaim s.queue.claim.1).finished = [] := by
      cases s.queue.claim.1 <;> rfl
    refine (mem_ended_setWorker (s := { s with queue := s.queue.claim.2 }) hf).elim id fun hmem => ?_
    change f ∈ (WorkerState.afterClaim s.queue.claim.1).finished at hmem
    simp [hclaim] at hmem
  · simp [workStep] at h
  · rcases ops with - | ⟨op, ops⟩
    · cases h
      refine (mem_ended_setWorker (s := { s with
        runCounters := (s.runCounters.add g.counters).toOption.getD s.runCounters }) hf).elim id
          fun hmem => mem_ended_of_worker hw hmem
    · cases h
      exact hkeep (b := .closing ops g) (fun _ => id) hf
  · cases h
    rcases mem_ended_setWorker (s := { s with outcomes := s.outcomes ++ [g] }) hf with hmem | hmem
    · simp only [ended, append_assoc, mem_append, mem_singleton] at hmem
      rcases hmem with hmem | rfl | hmem
      · exact mem_append_left _ hmem
      · exact mem_ended_of_worker hw mem_cons_self
      · exact mem_append_right _ hmem
    · simp [WorkerState.finished] at hmem
  · cases h
    refine hkeep (fun g hg => ?_) hf
    split_ifs at hg
    · simp [WorkerState.finished] at hg
    · simp [WorkerState.finished] at hg
  · cases h
    exact hkeep (by simp [WorkerState.finished]) hf
  · rcases ops with - | ⟨op, ops⟩
    · cases h
      exact hkeep (by simp [WorkerState.finished]) hf
    · cases h
      exact hkeep (by simp [WorkerState.finished]) hf
  · simp [workStep] at h

/-- **Where the ranges that have ended come from**: each was ended by a worker. -/
theorem ended_step {s s' : SchedulerRun} {act : Act} (h : step settings s act = some s')
    {f : FinishedRange} (hf : f ∈ s'.ended) : f ∈ s.ended ∨
      ∃ w result units range, act = .finish w result units ∧
        f = processRange ⟨s.runCounters.job, units⟩ range result := by
  rcases act with request | call | w | ⟨w, result, units⟩
  · simp only [step] at h
    split_ifs at h
    cases h
    exact .inl hf
  · simp only [step] at h
    split at h
    · cases h
      exact .inl hf
    · simp at h
  · obtain ⟨state, hw, hstep⟩ := Option.bind_eq_some_iff.1 h
    exact .inl (ended_workStep hw hstep hf)
  · simp only [step] at h
    split at h
    · next range hw =>
      split_ifs at h
      cases h
      have hmem := mem_ended_setWorker (s := s) (b := .closing _ _) hf
      refine hmem.imp id fun hmem => ?_
      exact ⟨w, result, units, range, rfl, mem_singleton.1 hmem⟩
    · simp at h

/-- Every range that has ended satisfies what holds of a range that a worker ends. -/
theorem forall_ended_step {P : FinishedRange → Prop} {s s' : SchedulerRun} {act : Act}
    (hi : ∀ f ∈ s.ended, P f) (h : step settings s act = some s')
    (hact : ∀ w result units range, act = .finish w result units →
      P (processRange ⟨s.runCounters.job, units⟩ range result)) : ∀ f ∈ s'.ended, P f := by
  intro f hf
  rcases ended_step h hf with hmem | ⟨w, result, units, range, rfl, rfl⟩
  · exact hi f hmem
  · exact hact w result units range rfl

theorem init_ended (hlen : plan.ranges.length ≤ isizeMax) :
    (init settings job plan hlen).ended = [] := by
  refine append_eq_nil_iff.2 ⟨rfl, flatMap_eq_nil_iff.2 fun state hstate => ?_⟩
  rw [eq_of_mem_replicate hstate]
  rfl

/-! ### Every planned range is counted once -/

end SchedulerRun

/-- What a range came to: it succeeded, failed or was abandoned. -/
inductive FinishedRange.Kind (f : FinishedRange) : Prop
  | success (verdict : RangeVerdict) (hstatus : f.outcome.status = verdict.status)
      (habandoned : f.outcome.abandoned = false)
  | failure (hstatus : f.outcome.status = .fail) (habandoned : f.outcome.abandoned = false)
  | abandoned (hstatus : f.outcome.status = .started) (habandoned : f.outcome.abandoned = true)

theorem FinishedRange.kind_processRange (c : JobCounters) (range : TokenRange)
    (result : RangeResult) : (processRange c range result).Kind := by
  rcases result with verdict | error | message | -
  · exact .success verdict rfl rfl
  · exact .failure rfl rfl
  · exact .failure rfl rfl
  · exact .abandoned rfl rfl

/-- One of the three counts takes the range. -/
theorem FinishedRange.Kind.flags {f : FinishedRange} (h : f.Kind) :
    (f.outcome.isSuccess = true ∧ f.outcome.isFailure = false ∧ f.outcome.abandoned = false) ∨
      (f.outcome.isSuccess = false ∧ f.outcome.isFailure = true ∧ f.outcome.abandoned = false) ∨
      f.outcome.isSuccess = false ∧ f.outcome.isFailure = false ∧ f.outcome.abandoned = true := by
  rcases h with ⟨verdict, hstatus, habandoned⟩ | ⟨hstatus, habandoned⟩ | ⟨hstatus, habandoned⟩
  · left
    cases verdict <;>
      simp [RangeOutcome.isSuccess, RangeOutcome.isFailure, hstatus, habandoned, RangeVerdict.status]
  · simp [RangeOutcome.isSuccess, RangeOutcome.isFailure, hstatus, habandoned]
  · simp [RangeOutcome.isSuccess, RangeOutcome.isFailure, hstatus, habandoned]

namespace SchedulerRun

variable {settings : SchedulerSettings} {job : JobKind} {plan : TokenPlan}

theorem length_of_kinds {fs : List FinishedRange} (h : ∀ f ∈ fs, f.Kind) :
    (fs.filter fun f => f.outcome.isSuccess).length +
      (fs.filter fun f => f.outcome.isFailure).length +
        (fs.filter fun f => f.outcome.abandoned).length = fs.length := by
  induction fs with
  | nil => rfl
  | cons f fs ih =>
    have hrest := ih fun g hg => h g (mem_cons_of_mem _ hg)
    rcases (h f mem_cons_self).flags with ⟨h₁, h₂, h₃⟩ | ⟨h₁, h₂, h₃⟩ | ⟨h₁, h₂, h₃⟩
    all_goals
      simp only [filter_cons, h₁, h₂, h₃, if_true, length_cons, Bool.false_eq_true, if_false]
      omega

/-- What holds in every state of a run whose processor counts rows only, for the report. -/
structure Reported (settings : SchedulerSettings) (job : JobKind) (plan : TokenPlan)
    (s : SchedulerRun) : Prop where
  conserved : Conserved settings job plan s
  stopped : Stopped s
  kinds : ∀ f ∈ s.ended, f.Kind

theorem step_reported {s s' : SchedulerRun} {act : Act} (hi : Reported settings job plan s)
    (hrows : s.RowsOnly act) (h : step settings s act = some s') : Reported settings job plan s' :=
  ⟨step_conserved hi.conserved h, step_stopped hi.stopped hi.conserved.next_lt hrows h,
    forall_ended_step hi.kinds h fun _ _ _ _ _ => FinishedRange.kind_processRange ..⟩

theorem init_reported (hlen : plan.ranges.length ≤ isizeMax) :
    Reported settings job plan (init settings job plan hlen) :=
  ⟨init_conserved hlen, init_stopped hlen, by simp [init_ended hlen]⟩

variable {s : SchedulerRun}

theorem mem_outcomes_report {f : FinishedRange} : f ∈ s.report.outcomes ↔ f ∈ s.outcomes :=
  mem_mergeSort

theorem Conserved.workers_ne_nil (hi : Conserved settings job plan s) : s.workers ≠ [] := by
  intro hnil
  have := hi.workers
  rw [hnil, SchedulerSettings.workerCount, length_nil] at this
  omega

/-- Every planned range is counted once: as passed, failed, abandoned or unclaimed. -/
theorem Reported.counts (hi : Reported settings job plan s) (hj : s.Joined) :
    s.report.rangesPassed + s.report.rangesFailed + s.report.rangesAbandoned +
      s.report.unclaimed.length = s.report.rangesPlanned := by
  have hkinds : ∀ f ∈ s.report.outcomes, f.Kind :=
    fun f hf => hi.kinds f (mem_append_left _ (mem_outcomes_report.1 hf))
  have hlength := (hi.conserved.report_ranges hj).length_eq
  have hplanned : s.report.rangesPlanned = plan.tokenRanges.length := by
    rw [← hi.conserved.ranges]
    rfl
  rw [length_append, length_map] at hlength
  rw [hplanned, ← hlength, ← length_of_kinds hkinds]
  rfl

/-- A run ends when nothing stopped it. -/
theorem status_report : s.report.status = s.report.stoppedBy.elim .ended StopReason.runStatus := rfl

/-- The run processed its whole plan, and every range succeeded. -/
def Report.AllSucceeded (r : Report) (plan : TokenPlan) : Prop :=
  (r.outcomes.map fun f => f.outcome.range).Perm plan.tokenRanges ∧
    ∀ f ∈ r.outcomes, f.outcome.isSuccess = true

theorem Reported.allSucceeded_iff (hi : Reported settings job plan s) (hj : s.Joined)
    (hnone : s.report.stoppedBy = none) :
    s.report.AllSucceeded plan ↔ s.report.rangesFailed = 0 := by
  have hunstopped : ¬ s.control.reason.isSome = true := by
    rw [show s.control.reason = none from hnone]
    simp
  have hunclaimed : s.report.unclaimed = [] := by
    by_contra hne
    exact hunstopped (hi.stopped.isSome_reason hj hi.conserved.workers_ne_nil (.inl hne))
  have hranges := hi.conserved.report_ranges hj
  rw [hunclaimed, append_nil] at hranges
  rw [Report.rangesFailed, length_eq_zero_iff, filter_eq_nil_iff]
  constructor
  · rintro ⟨-, hall⟩ f hf hfailure
    have hsuccess := hall f hf
    rcases (hi.kinds f (mem_append_left _ (mem_outcomes_report.1 hf))).flags with ⟨-, h, -⟩ |
      ⟨h, -⟩ | ⟨-, h, -⟩
    · simp [h] at hfailure
    · simp [h] at hsuccess
    · simp [h] at hfailure
  · refine fun hfailed => ⟨hranges, fun f hf => ?_⟩
    have hmem := mem_outcomes_report.1 hf
    rcases (hi.kinds f (mem_append_left _ hmem)).flags with ⟨hsuccess, -⟩ | ⟨-, hfailure, -⟩ |
      ⟨-, -, habandoned⟩
    · exact hsuccess
    · exact absurd hfailure (hfailed f hf)
    · exact absurd (hi.stopped.isSome_reason hj hi.conserved.workers_ne_nil
        (.inr ⟨f, hmem, habandoned⟩)) hunstopped

/-! ### The exit -/

theorem status_eq_ended_iff : s.report.status = .ended ↔ s.report.stoppedBy = none := by
  rw [status_report]
  rcases s.report.stoppedBy with - | reason
  · simp
  · simp [StopReason.runStatus_ne_ended]

theorem status_eq_interrupted_iff :
    s.report.status = .interrupted ↔ s.report.stoppedBy = some .signal := by
  rw [status_report]
  rcases s.report.stoppedBy with - | reason
  · simp
  · cases reason <;> simp [StopReason.runStatus]

end SchedulerRun

namespace RunSummary

theorem debugName_upper_eq_ended (status : RunStatus) :
    String.ofList (Text.toUpper status.debugName.toList) = "ENDED" ↔ status = .ended := by
  cases status <;> decide

theorem debugName_upper_eq_interrupted (status : RunStatus) :
    String.ofList (Text.toUpper status.debugName.toList) = "INTERRUPTED" ↔
      status = .interrupted := by
  cases status <;> decide

theorem status_fromReport_eq_ended {kind : JobKind} {report : SchedulerRun.Report} {dryRun : Bool} :
    (fromReport kind report dryRun).status = "ENDED" ↔ report.status = .ended :=
  debugName_upper_eq_ended _

theorem status_fromReport_eq_interrupted {kind : JobKind} {report : SchedulerRun.Report}
    {dryRun : Bool} :
    (fromReport kind report dryRun).status = "INTERRUPTED" ↔ report.status = .interrupted :=
  debugName_upper_eq_interrupted _

/-- The exit of a summary, in terms of the report. -/
theorem exit_fromReport (kind : JobKind) (report : SchedulerRun.Report) (dryRun : Bool) :
    (fromReport kind report dryRun).exit =
      if report.status = .interrupted then .interrupted
      else if report.rangesFailed = 0 ∧ unrepaired report = 0 ∧ report.status = .ended then .success
      else .completed := by
  rw [exit, isClean]
  simp only [status_fromReport_eq_interrupted, Bool.and_eq_true, beq_iff_eq,
    status_fromReport_eq_ended, and_assoc]
  rfl

end RunSummary

namespace SchedulerRun

variable {settings : SchedulerSettings} {job : JobKind} {plan : TokenPlan} {s : SchedulerRun}

theorem run_reported {hlen : plan.ranges.length ≤ isizeMax} {acts : List Act}
    (hrun : (lts settings).exec (init settings job plan hlen) acts = some s)
    (hrows : (lts settings).Along RowsOnly (init settings job plan hlen) acts) :
    Reported settings job plan s :=
  LTS.exec_invariant_along hrun hrows (init_reported hlen) fun _ _ _ hi hr h => step_reported hi hr h

/-- A process exits with success if nothing stopped the run, all went well and nothing is left to
repair. -/
theorem Reported.exit_success_iff (hi : Reported settings job plan s) (hj : s.Joined) (kind : JobKind)
    (dryRun : Bool) : (RunSummary.fromReport kind s.report dryRun).exit = .success ↔
      s.report.stoppedBy = none ∧ s.report.AllSucceeded plan ∧ unrepaired s.report = 0 := by
  rw [RunSummary.exit_fromReport]
  by_cases hinterrupted : s.report.status = .interrupted
  · have hsignal := status_eq_interrupted_iff.1 hinterrupted
    simp [hinterrupted, hsignal]
  · rw [if_neg hinterrupted]
    constructor
    · intro hsuccess
      split_ifs at hsuccess with hclean
      obtain ⟨hfailed, hrepaired, hended⟩ := hclean
      have hnone := status_eq_ended_iff.1 hended
      exact ⟨hnone, (hi.allSucceeded_iff hj hnone).2 hfailed, hrepaired⟩
    · rintro ⟨hnone, hall, hrepaired⟩
      rw [if_pos ⟨(hi.allSucceeded_iff hj hnone).1 hall, hrepaired, status_eq_ended_iff.2 hnone⟩]

/-- **How a process exits.** For every plan, all results of its ranges that count rows only, and every
interleaving of the workers with stops and kills: when the workers have left, every planned range is
counted once, as passed, failed, abandoned or unclaimed; the process exits with success if and only
if nothing stopped the run, every range of the plan succeeded and every discrepancy was repaired; its
exit can be retried if and only if a signal stopped the run; and its code is the one that the report
implies, unless discrepancies alone stand against a success. -/
theorem exit_cases {hlen : plan.ranges.length ≤ isizeMax} {acts : List Act}
    (hrun : (lts settings).exec (init settings job plan hlen) acts = some s)
    (hrows : (lts settings).Along RowsOnly (init settings job plan hlen) acts) (hj : s.Joined)
    (kind : JobKind) (dryRun : Bool) :
    s.report.rangesPassed + s.report.rangesFailed + s.report.rangesAbandoned +
        s.report.unclaimed.length = s.report.rangesPlanned ∧
      ((RunSummary.fromReport kind s.report dryRun).exit = .success ↔
        s.report.stoppedBy = none ∧ s.report.AllSucceeded plan ∧ unrepaired s.report = 0) ∧
      ((RunSummary.fromReport kind s.report dryRun).exit.isRetryable = true ↔
        s.report.stoppedBy = some .signal) ∧
      (RunSummary.fromReport kind s.report dryRun).exit.code =
        if s.report.exitCode = 0 ∧ unrepaired s.report ≠ 0 then 1 else s.report.exitCode := by
  have hi := run_reported hrun hrows
  refine ⟨hi.counts hj, hi.exit_success_iff hj kind dryRun, ?_⟩
  rw [RunSummary.exit_fromReport]
  constructor
  · rw [← status_eq_interrupted_iff]
    split_ifs with h₁ h₂
    · simp [Exit.isRetryable, h₁]
    · simp [Exit.isRetryable, h₁]
    · simp [Exit.isRetryable, h₁]
  · rw [Report.exitCode, status_report]
    rcases s.report.stoppedBy with - | reason
    · by_cases hfailed : s.report.rangesFailed = 0
      · by_cases hrepaired : unrepaired s.report = 0
        · simp [hfailed, hrepaired, Exit.code]
        · simp [hfailed, hrepaired, Exit.code]
      · simp [hfailed, Exit.code]
    · cases reason <;> simp [StopReason.runStatus, Exit.code]

/-- The run that is killed can be retried, and its two ranges and the unclaimed one are counted. -/
theorem exit_cases_killed :
    ∃ s, (lts pairSettings).exec (init pairSettings .migrate killedPlan (by decide)) killedActs =
        some s ∧ s.report.rangesPassed + s.report.rangesFailed + s.report.rangesAbandoned +
          s.report.unclaimed.length = s.report.rangesPlanned ∧
      (RunSummary.fromReport .migrate s.report false).exit.isRetryable = true := by
  have hsome : ((lts pairSettings).exec (init pairSettings .migrate killedPlan (by decide))
      killedActs).any (fun s => s.Joined ∧ s.control.reason = some .signal) = true := by decide
  obtain ⟨s, hs, h⟩ := (Option.any_eq_true _ _).1 hsome
  obtain ⟨hj, hreason⟩ := of_decide_eq_true h
  obtain ⟨hcounts, -, hretryable, -⟩ := exit_cases hs (by decide) hj .migrate false
  exact ⟨s, hs, hcounts, hretryable.2 hreason⟩

end SchedulerRun

end Cdm
